import IpcPubsub.HubRuns

/-!
# The history stays in order

The history is sorted by sequence number and lies below `mNextSeq`: that is what
`std::lower_bound` needs in `AddOldMessage`, and what the assertions of
`OnConnect` and `Broadcast` check.  Two ways of choosing a sequence number
coexist.  A minted message takes `mNextSeq`; an old message is accepted with its
own number when the search runs to the end of the history, and resets
`mNextSeq` to what follows it.  Either way the new message is beyond the whole
history, and pruning only removes messages.

The condition is that no received message carries the largest word and that
`mNextSeq` does not reach `2 ^ 64` by minting (`NoWrap`).
-/

namespace IpcPubsub

open GuardedRuns CursorLog LowerBound WordOrder

/-- A received message does not carry the largest word. -/
def HubOp.BelowMax : HubOp → Prop
  | .data _ msg _ => msg.seq ≠ maxWord
  | _ => True

instance : DecidablePred HubOp.BelowMax
  | .data _ msg _ => inferInstanceAs (Decidable (msg.seq ≠ maxWord))
  | .connect _ => isTrue trivial
  | .disconnect _ => isTrue trivial
  | .purge _ => isTrue trivial

/-- What is parsed from a packet does not carry the largest word. -/
def HubCall.BelowMax (parse : List UInt8 → TopologyMessage) : HubCall → Prop
  | .onData _ data _ => data.length ≠ 0 → (parse data).seq ≠ maxWord
  | _ => True

instance (parse : List UInt8 → TopologyMessage) : DecidablePred (HubCall.BelowMax parse)
  | .onData _ data _ =>
      inferInstanceAs (Decidable (data.length ≠ 0 → (parse data).seq ≠ maxWord))
  | .onConnect _ => isTrue trivial
  | .onDisconnect _ => isTrue trivial
  | .purgeDisconnected _ => isTrue trivial

namespace TopologyServer

/-- The history is sorted by `seq` and lies below `mNextSeq`. -/
structure Ordered (s : TopologyServer) : Prop where
  sorted : s.mHistory.Pairwise fun msg msg' => msg.seq ≤ msg'.seq
  below : ∀ msg ∈ s.mHistory, msg.seq < s.mNextSeq

/-- Neither a received nor a minted message takes the largest word: minting does
not take `mNextSeq` to `2 ^ 64`. -/
def NoWrap (s : TopologyServer) (op : HubOp) : Prop :=
  op.BelowMax ∧ ∀ o ∈ s.perform op, s.mNextSeq.toNat + o.minted.length < 2 ^ 64

instance (s : TopologyServer) (op : HubOp) : Decidable (s.NoWrap op) :=
  inferInstanceAs (Decidable (_ ∧ _))

variable {s u : TopologyServer} {op : HubOp} {minted accepted : List TopologyMessage}
  {failed : List Assertion} {o : Outcome}

/-- The constructor leaves `mNextSeq` beyond a sorted digest. -/
theorem create_ordered {digest : List TopologyMessage}
    (hsorted : digest.Pairwise fun msg msg' => msg.seq ≤ msg'.seq)
    (hmax : ∀ msg ∈ digest, msg.seq ≠ maxWord) : (create digest).Ordered := by
  refine ⟨hsorted, ?_⟩
  intro msg hmem
  rcases List.eq_nil_or_concat' digest with rfl | ⟨before, last, rfl⟩
  · cases hmem
  · have hnext : (create (before ++ [last])).mNextSeq = last.seq + 1 := by simp [create]
    rw [hnext, lt_add_one_iff (hmax last (by simp))]
    rcases List.mem_append.mp hmem with hbefore | hlast
    · exact (List.pairwise_append.mp hsorted).2.2 msg hbefore last List.mem_cons_self
    · exact le_of_eq (congrArg _ (List.mem_singleton.mp hlast))

/-- Appending a message beyond the history keeps the order, with `mNextSeq` beyond the message. -/
theorem Ordered.append {msg : TopologyMessage} (h : s.Ordered)
    (hbeyond : ∀ old ∈ s.mHistory, old.seq < msg.seq)
    (hhistory : u.mHistory = s.mHistory ++ [msg]) (hnext : msg.seq < u.mNextSeq) :
    u.Ordered := by
  refine ⟨?_, ?_⟩
  · rw [hhistory]
    refine List.pairwise_append.mpr ⟨h.sorted, List.pairwise_singleton _ _, ?_⟩
    intro old hold msg' hmsg'
    obtain rfl := List.mem_singleton.mp hmsg'
    exact le_of_lt (hbeyond old hold)
  · intro old hold
    rw [hhistory] at hold
    rcases List.mem_append.mp hold with hold | hold
    · exact lt_trans (hbeyond old hold) hnext
    · obtain rfl := List.mem_singleton.mp hold
      exact hnext

/-- A message that is minted goes behind all others. -/
theorem Ordered.mint (h : s.Ordered) (hmax : s.mNextSeq ≠ maxWord) (msg : TopologyMessage) :
    (s.mint msg).Ordered :=
  @Ordered.append s (s.mint msg) { msg with seq := s.mNextSeq } h h.below rfl (lt_add_one hmax)

/-- A sorted history is what `std::lower_bound` needs. -/
theorem Ordered.partitioned (h : s.Ordered) (seq : UInt64) :
    Partitioned (fun lhs : TopologyMessage => decide (lhs.seq < seq)) s.mHistory :=
  h.sorted.imp fun hle hlt => by
    simp only [decide_eq_true_eq] at hlt ⊢
    exact lt_of_le_of_lt hle hlt

/-- The search runs to the end exactly for a message beyond the history. -/
theorem Ordered.hit_eq_none_iff (h : s.Ordered) (msg : TopologyMessage) :
    s.hit msg = none ↔ ∀ old ∈ s.mHistory, old.seq < msg.seq := by
  have hle := lowerBound_le_length (fun lhs : TopologyMessage => decide (lhs.seq < msg.seq))
    s.mHistory
  rw [hit, List.getElem?_eq_none_iff]
  have hlength := lowerBound_eq_length_iff (h.partitioned msg.seq)
  simp only [decide_eq_true_eq] at hlength
  rw [← hlength]
  omega

/-- Minted LEAVEs take consecutive numbers from `mNextSeq` on, as long as the counter does not
wrap around. -/
theorem Ordered.mintLeaves {ids : List UInt64} (h : s.Ordered)
    (hwrap : s.mNextSeq.toNat + ids.length < 2 ^ 64) :
    (s.mintLeaves ids).1.Ordered ∧
      Increasing TopologyMessage.seq (s.mintLeaves ids).2 ∧
      ∀ msg ∈ (s.mintLeaves ids).2, s.mNextSeq ≤ msg.seq := by
  induction ids generalizing s with
  | nil => exact ⟨h, List.Pairwise.nil, fun msg hmem => by cases hmem⟩
  | cons id ids ih =>
      rw [List.length_cons] at hwrap
      have hmax : s.mNextSeq ≠ maxWord := by
        intro heq
        have : s.mNextSeq.toNat = 18446744073709551615 := by rw [heq]; rfl
        omega
      have hnext : (s.mint (leaveMessage id)).mNextSeq = s.mNextSeq + 1 := rfl
      obtain ⟨hordered, hincreasing, hfrom⟩ := ih (s := s.mint (leaveMessage id))
        (h.mint hmax _) (by rw [hnext, toNat_add_one hmax]; omega)
      have hlater : ∀ msg ∈ ((s.mint (leaveMessage id)).mintLeaves ids).2,
          s.mNextSeq < msg.seq :=
        fun msg hmem => lt_of_lt_of_le (lt_add_one hmax) (hfrom msg hmem)
      refine ⟨hordered, List.pairwise_cons.mpr ⟨hlater, hincreasing⟩, ?_⟩
      intro msg hmem
      rcases List.mem_cons.mp hmem with rfl | hmem
      · exact le_refl _
      · exact le_of_lt (hlater msg hmem)

/-- **An update keeps the order**, and everything it adds is beyond everything
that was there. -/
theorem Updates.ordered (hupdate : Updates s op u minted accepted failed) (h : s.Ordered)
    (hdata : op.BelowMax)
    (hwrap : s.mNextSeq.toNat + minted.length < 2 ^ 64) :
    u.Ordered ∧ Increasing TopologyMessage.seq (minted ++ accepted) ∧
      ∀ old ∈ s.mHistory, ∀ msg ∈ minted ++ accepted, old.seq < msg.seq := by
  have hmint : minted.length = 1 → s.mNextSeq ≠ maxWord := by
    intro hlen heq
    have : s.mNextSeq.toNat = 18446744073709551615 := by rw [heq]; rfl
    omega
  have hkeep : ∀ clients,
      ({ s with mClients := clients } : TopologyServer).Ordered ∧
        Increasing TopologyMessage.seq ([] : List TopologyMessage) ∧
        ∀ old ∈ s.mHistory, ∀ msg ∈ ([] : List TopologyMessage), old.seq < msg.seq :=
    fun _ => ⟨⟨h.sorted, h.below⟩, List.Pairwise.nil, fun _ _ msg hmem => by cases hmem⟩
  cases hupdate with
  | redundant _ _ _ _ => exact hkeep _
  | held _ _ _ _ => exact hkeep _
  | @novel fd msg random client _ _ _ _ =>
      have hordered := h.mint (hmint rfl) { msg with uid := random }
      refine ⟨⟨hordered.sorted, hordered.below⟩, List.pairwise_singleton _ _, ?_⟩
      intro old hold msg hmsg
      obtain rfl := List.mem_singleton.mp hmsg
      exact h.below old hold
  | @disconnect fd client _ =>
      have hordered := h.mint (hmint rfl) (leaveMessage client.nodeId)
      refine ⟨⟨hordered.sorted, hordered.below⟩, List.pairwise_singleton _ _, ?_⟩
      intro old hold msg hmsg
      obtain rfl := List.mem_singleton.mp hmsg
      exact h.below old hold
  | newest _ _ _ hhit =>
      have hbeyond := (h.hit_eq_none_iff _).mp hhit
      refine ⟨h.append hbeyond rfl (lt_add_one hdata), List.pairwise_singleton _ _, ?_⟩
      intro old hold msg hmsg
      obtain rfl := List.mem_singleton.mp hmsg
      exact hbeyond old hold
  | purge _ _ =>
      rw [mintLeaves_length] at hwrap
      obtain ⟨hordered, hincreasing, hfrom⟩ := h.mintLeaves hwrap
      rw [List.append_nil]
      exact ⟨hordered, hincreasing,
        fun old hold msg hmsg => lt_of_lt_of_le (h.below old hold) (hfrom msg hmsg)⟩

/-- Before broadcasting only the assertions of `AddOldMessage` can fail; those of `Broadcast` come
after the update. -/
theorem Updates.failed_only (h : Updates s op u minted accepted failed) :
    ∀ assertion ∈ failed, assertion = .oldUid ∨ assertion = .oldMatch := by
  intro assertion hmem
  cases h with
  | newest _ _ _ _ =>
      split at hmem
      · cases hmem
      · exact Or.inl (List.mem_singleton.mp hmem)
  | held _ _ _ _ =>
      split at hmem
      · exact Or.inr (List.mem_singleton.mp hmem)
      · cases hmem
  | _ => cases hmem

/-- `PruneRemoved` and `Broadcast` keep the order. -/
theorem Ordered.settle (h : u.Ordered) : (settle u).server.Ordered where
  sorted := h.sorted.sublist pruneRemoved_sublist
  below := fun msg hmem => h.below msg (pruneRemoved_sublist.subset hmem)

/-- Sending a sorted history to a new connection trips no assertion. -/
theorem sendHistory_failed {history : List TopologyMessage} {seq : UInt64}
    (hsorted : history.Pairwise fun msg msg' => msg.seq ≤ msg'.seq)
    (hseq : ∀ msg ∈ history, seq ≤ msg.seq) : (sendHistory seq history).2 = [] := by
  induction history generalizing seq with
  | nil => rfl
  | cons msg history ih =>
      have htail := ih hsorted.of_cons fun _ hmem => List.rel_of_pairwise_cons hsorted hmem
      have hle : msg.seq ≥ seq := hseq msg List.mem_cons_self
      simp [sendHistory, hle, htail]

/-- **One call of the hub.**  Order is kept, what is added is beyond what was
there, and the assertions about sequence numbers hold. -/
theorem perform_ordered (h : s.Ordered) (hwrap : s.NoWrap op) (hop : s.perform op = some o) :
    o.server.Ordered ∧ Increasing TopologyMessage.seq o.added ∧
      (∀ old ∈ s.mHistory, ∀ msg ∈ o.added, old.seq < msg.seq) ∧
      .connectSeq ∉ o.failed ∧ .broadcastSeq ∉ o.failed := by
  rcases perform_cases hop with ⟨fd, rfl, hfd, rfl⟩ | ⟨fd, msg, random, rfl, _, rfl⟩ |
    ⟨u, failed, hupdate, hserver, _, hfailed⟩
  · have hnone : s.mClients.lookup fd = none := Finmap.lookup_eq_none.mpr hfd
    have hsend : (s.onConnect fd).failed = [] := by
      simp only [onConnect, hnone, Option.getD_none]
      exact sendHistory_failed h.sorted fun msg _ => zero_le_word msg.seq
    refine ⟨⟨h.sorted, h.below⟩, List.Pairwise.nil, ?_, ?_, ?_⟩
    · simp [onConnect, Outcome.added]
    · simp [hsend]
    · simp [hsend]
  · exact ⟨h, List.Pairwise.nil, by simp [Outcome.added], by simp, by simp⟩
  · obtain ⟨hordered, hincreasing, hbeyond⟩ :=
      hupdate.ordered h hwrap.1 (hwrap.2 o hop)
    have hquiet := settle_failed u hordered.settle.below
    have honly := hupdate.failed_only
    rw [hserver, hfailed, hquiet, List.append_nil]
    refine ⟨hordered.settle, hincreasing, hbeyond, ?_, ?_⟩
    · intro hmem
      rcases honly _ hmem with heq | heq <;> cases heq
    · intro hmem
      rcases honly _ hmem with heq | heq <;> cases heq

/-! ## Runs on packets -/

/-- The state after a call on bytes. -/
def callStep (parse : List UInt8 → TopologyMessage) (s : TopologyServer) (call : HubCall) :
    Option TopologyServer :=
  (s.call parse call).map Outcome.server

/-- `NoWrap` for a call on bytes. -/
def CallNoWrap (parse : List UInt8 → TopologyMessage) (s : TopologyServer) (call : HubCall) :
    Prop :=
  call.BelowMax parse ∧
    ∀ o ∈ s.call parse call, s.mNextSeq.toNat + o.minted.length < 2 ^ 64

instance (parse : List UInt8 → TopologyMessage) (s : TopologyServer) (call : HubCall) :
    Decidable (s.CallNoWrap parse call) :=
  inferInstanceAs (Decidable (_ ∧ _))

/-- A call on bytes does what a call on the parsed message does. -/
theorem call_ordered {parse : List UInt8 → TopologyMessage} {call : HubCall} (h : s.Ordered)
    (hwrap : s.CallNoWrap parse call) (hcall : s.call parse call = some o) :
    o.server.Ordered ∧ o.server.mHistory.Sublist (s.mHistory ++ o.added) ∧
      Increasing TopologyMessage.seq o.added ∧
      (∀ old ∈ s.mHistory, ∀ msg ∈ o.added, old.seq < msg.seq) ∧
      .connectSeq ∉ o.failed ∧ .broadcastSeq ∉ o.failed := by
  rcases call_cases hcall with rfl | ⟨op, hop, hdata⟩
  · exact ⟨h, by simp [Outcome.added], List.Pairwise.nil, by simp [Outcome.added], by simp,
      by simp⟩
  · have hbelow : op.BelowMax := by
      cases op with
      | data fd msg random =>
          obtain ⟨data, rfl, hlen, rfl⟩ := hdata fd msg random rfl
          exact hwrap.1 hlen
      | _ => trivial
    have hop' : ∀ o' ∈ s.perform op, s.mNextSeq.toNat + o'.minted.length < 2 ^ 64 := by
      intro o' ho'
      obtain rfl := Option.some.inj (hop.symm.trans ho')
      exact hwrap.2 o hcall
    obtain ⟨hordered, hrest⟩ := perform_ordered h ⟨hbelow, hop'⟩ hop
    exact ⟨hordered, perform_sublist hop, hrest⟩

/-- **History order.**  From a sorted digest, in every state a hub reaches on
arbitrary packets the history is sorted and below `mNextSeq`, so the binary
search of `AddOldMessage` runs on a partitioned range; and in that state every
call adds only messages beyond all that are present and trips neither the
assertion of `OnConnect` nor that of `Broadcast`. -/
theorem history_order_invariant (parse : List UInt8 → TopologyMessage)
    (digest : List TopologyMessage) (calls : List HubCall)
    (hsorted : digest.Pairwise fun msg msg' => msg.seq ≤ msg'.seq)
    (hmax : ∀ msg ∈ digest, msg.seq ≠ maxWord)
    (hwrap : Along (callStep parse) (CallNoWrap parse) (create digest) calls)
    (hrun : exec (callStep parse) (create digest) calls = some s) :
    s.Ordered ∧
    (∀ seq, Partitioned (fun lhs : TopologyMessage => decide (lhs.seq < seq)) s.mHistory) ∧
    ∀ call o, s.call parse call = some o → s.CallNoWrap parse call →
      o.server.mHistory.Sublist (s.mHistory ++ o.added) ∧
      Increasing TopologyMessage.seq o.added ∧
      (∀ old ∈ s.mHistory, ∀ msg ∈ o.added, old.seq < msg.seq) ∧
      .connectSeq ∉ o.failed ∧ .broadcastSeq ∉ o.failed := by
  have hordered : s.Ordered := by
    refine exec_invariant (P := CallNoWrap parse) (I := Ordered) ?_
      (create_ordered hsorted hmax) hwrap hrun
    intro s call s' h hwrap hstep
    obtain ⟨o, ho, rfl⟩ := Option.map_eq_some_iff.mp hstep
    exact (call_ordered h hwrap ho).1
  exact ⟨hordered, hordered.partitioned, fun call o hcall hwrap =>
    (call_ordered hordered hwrap hcall).2⟩

/-- A parser that reads a packet of two bytes as a JOIN: one that was minted with the first byte
as its number, of the node numbered by the second. -/
def joinFromBytes : List UInt8 → TopologyMessage
  | [seq, id] =>
      { seq := seq.toUInt64, uid := 31, op := .nodeChange { id := id.toUInt64, op := .join } }
  | _ => {}

/-- The digest of a hub that takes over two nodes. -/
def twoJoined : List TopologyMessage :=
  [{ seq := 3, uid := 7, op := .nodeChange { id := 8, op := .join } },
    { seq := 5, uid := 9, op := .nodeChange { id := 9, op := .join } }]

/-- Two clients connect.  The first re-sends a JOIN the hub has not got and one that is behind
its history, and then joins; a packet that does not parse is ignored.  Both hang up around the
purge of the two nodes of the digest. -/
def joinAndHangUp : List HubCall :=
  [.onConnect 4, .onConnect 5, .onData 4 [6, 6] 0, .onData 4 [2, 7] 0, .onData 4 [0, 4] 99,
    .onData 5 [] 7, .onDisconnect 5, .purgeDisconnected [4, 6, 8, 9], .onDisconnect 4]

/-- The history of the hub after that. -/
theorem history_order_invariant_joinAndHangUp :
    ((exec (callStep joinFromBytes) (create twoJoined) joinAndHangUp).getD (create [])).Ordered :=
  (history_order_invariant joinFromBytes twoJoined joinAndHangUp (by decide) (by decide)
    (by decide +kernel) (by decide +kernel)).1

end TopologyServer

end IpcPubsub
