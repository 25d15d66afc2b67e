import IpcPubsub.Delivery

/-!
# Merging the histories of survivors

A hub has died.  Each of its clients holds the pruned history it was given when
it connected and everything sent to it afterwards, up to some point; all of them
re-send this to a hub that starts empty.  `AddOldMessage` takes only what is
beyond its history, and pruning moves the end of the history, so a fast client
might shut out a message of a slow one.

It never shuts out a message that matters.  Whatever a client does not hold
below what it has sent was pruned, on behalf of a LEAVE it holds.  So every
message at or below the end of the merged history is in it or will be pruned
from it (`Merging.covered`), and `merge_of_survivors` follows: the result is the
pruned history of the furthest client, for every interleaving.
-/

namespace IpcPubsub

open FiniteMap GuardedRuns CursorLog WordOrder

/-- The messages of a log up to a sequence number. -/
def upTo (seq : UInt64) (log : List TopologyMessage) : List TopologyMessage :=
  log.filter fun msg => msg.seq ≤ seq

/-- What a client holds of a log that it was given, pruned, up to `given` and
followed up to `held`. -/
def survivor (log : List TopologyMessage) (given held : UInt64) : List TopologyMessage :=
  TopologyServer.pruneRemoved (upTo given log) ++
    log.filter fun msg => given < msg.seq ∧ msg.seq ≤ held

/-- The message a call hands over from a connection. -/
def HubOp.packet (fd : Fd) : HubOp → Option TopologyMessage
  | .data fd' msg _ => if fd' = fd then some msg else none
  | _ => none

/-- A call reads one packet at most. -/
theorem HubOp.eq_of_mem_packet {fd fd' : Fd} {msg msg' : TopologyMessage} {random : UInt64}
    (h : msg' ∈ (HubOp.data fd msg random).packet fd') : msg' = msg := by
  rw [HubOp.packet] at h
  split at h
  · exact (Option.some.inj h).symm
  · cases h

/-- Everything handed over from a connection, in order. -/
def packets (fd : Fd) (ops : List HubOp) : List TopologyMessage :=
  ops.filterMap (HubOp.packet fd)

/-- The packets of a run, part by part. -/
theorem packets_append (fd : Fd) (ops ops' : List HubOp) :
    packets fd (ops ++ ops') = packets fd ops ++ packets fd ops' :=
  List.filterMap_append

/-- The packet of one call, if it is of this connection. -/
@[simp] theorem packets_singleton (fd : Fd) (op : HubOp) :
    packets fd [op] = (op.packet fd).toList := by
  cases h : op.packet fd <;> simp [packets, h]

/-- A connection that hands over a list of messages. -/
theorem packets_map_data (fd fd' : Fd) (log : List TopologyMessage) :
    packets fd (log.map (.data fd' · 0)) = if fd' = fd then log else [] := by
  induction log with
  | nil => simp [packets]
  | cons msg log ih =>
      rw [packets] at ih ⊢
      split at ih <;> simp_all [HubOp.packet]

/-- A client connects or sends. -/
def HubOp.Resends : HubOp → Prop
  | .connect _ => True
  | .data _ _ _ => True
  | _ => False

instance : DecidablePred HubOp.Resends
  | .connect _ => isTrue trivial
  | .data _ _ _ => isTrue trivial
  | .disconnect _ => isFalse fun h => h
  | .purge _ => isFalse fun h => h

namespace TopologyServer

variable {log : List TopologyMessage} {given held : UInt64} {msg : TopologyMessage}

/-- What the lost hub had sent by the time it reached a number. -/
theorem mem_upTo {seq : UInt64} : msg ∈ upTo seq log ↔ msg ∈ log ∧ msg.seq ≤ seq := by
  simp [upTo]

/-- The longer a log, the more nodes have left in it. -/
theorem leftNodes_mono {log log' : List TopologyMessage} (h : ∀ msg ∈ log, msg ∈ log') :
    leftNodes log ⊆ leftNodes log' := by
  intro id hid
  obtain ⟨msg, hmem, hleave⟩ := mem_leftNodes.mp hid
  exact mem_leftNodes.mpr ⟨msg, h msg hmem, hleave⟩

/-- A survivor holds nothing else. -/
theorem mem_of_mem_survivor (hle : given ≤ held) (h : msg ∈ survivor log given held) :
    msg ∈ upTo held log := by
  rcases List.mem_append.mp h with hold | hnew
  · have hgiven := mem_upTo.mp (pruneRemoved_sublist.subset hold)
    exact mem_upTo.mpr ⟨hgiven.1, le_trans hgiven.2 hle⟩
  · have hnew := List.mem_filter.mp hnew
    simp only [decide_eq_true_eq] at hnew
    exact mem_upTo.mpr ⟨hnew.1, hnew.2.2⟩

/-- What a survivor lacks was pruned before it connected. -/
theorem pruned_of_not_mem_survivor (hmem : msg ∈ upTo held log)
    (hnot : msg ∉ survivor log given held) : keeps (leftNodes (upTo given log)) msg = false := by
  obtain ⟨hlog, hheld⟩ := mem_upTo.mp hmem
  rw [survivor, List.mem_append, not_or, mem_pruneRemoved, mem_upTo, List.mem_filter] at hnot
  simp only [decide_eq_true_eq, not_and] at hnot
  have hgiven : msg.seq ≤ given := not_lt.mp fun hlt => hnot.2 hlog hlt hheld
  exact Bool.eq_false_iff.mpr (hnot.1 ⟨hlog, hgiven⟩)

/-- What a survivor re-sends is in the order of the lost hub. -/
theorem survivor_increasing (h : Increasing TopologyMessage.seq log) :
    Increasing TopologyMessage.seq (survivor log given held) := by
  refine List.pairwise_append.mpr ⟨?_, h.sublist List.filter_sublist, ?_⟩
  · exact h.sublist (pruneRemoved_sublist.trans List.filter_sublist)
  · intro old hold new hnew
    have hle := (mem_upTo.mp (pruneRemoved_sublist.subset hold)).2
    have hlt := (List.mem_filter.mp hnew).2
    simp only [decide_eq_true_eq] at hlt
    exact lt_of_le_of_lt hle hlt.1

/-- A message that pruning the log up to `last` removes. -/
def Doomed (log : List TopologyMessage) (last : UInt64) (msg : TopologyMessage) : Prop :=
  keeps (leftNodes (upTo last log)) msg = false

/-- What the LEAVEs of a part would prune, those of the whole prune as well. -/
theorem Doomed.of_subset {last : UInt64} {history : List TopologyMessage}
    (hsubset : ∀ msg ∈ history, msg ∈ upTo last log)
    (h : keeps (leftNodes history) msg = false) : Doomed log last msg := by
  refine Bool.eq_false_iff.mpr fun hkeeps => ?_
  rw [keeps_anti (leftNodes_mono hsubset) hkeeps] at h
  cases h

/-- What a survivor lacks is doomed. -/
theorem doomed_of_not_mem_survivor {last : UInt64} (hle : given ≤ held) (hlast : held ≤ last)
    (hmem : msg ∈ upTo held log) (hnot : msg ∉ survivor log given held) : Doomed log last msg := by
  refine Doomed.of_subset ?_ (pruned_of_not_mem_survivor hmem hnot)
  intro m hm
  obtain ⟨hlog, hgiven⟩ := mem_upTo.mp hm
  exact mem_upTo.mpr ⟨hlog, le_trans hgiven (le_trans hle hlast)⟩

/-- A hub in the middle of the merge, after `ops`. -/
structure Merging (log : List TopologyMessage) (last : UInt64) (ops : List HubOp)
    (s : TopologyServer) : Prop where
  settled : s.Settled
  within : ∀ msg ∈ s.mHistory, msg ∈ upTo last log
  /-- Everything up to the end of the history is in it or will be pruned. -/
  covered : ∀ msg ∈ log, (∃ later ∈ s.mHistory, msg.seq ≤ later.seq) →
    msg ∈ s.mHistory ∨ Doomed log last msg
  /-- So is everything handed over. -/
  handed : ∀ fd, ∀ msg ∈ packets fd ops, msg ∈ s.mHistory ∨ Doomed log last msg

variable {last : UInt64} {ops : List HubOp} {s s' : TopologyServer} {fd : Fd} {random : UInt64}

/-- What is in the history stays there or is doomed. -/
theorem mem_or_doomed_of_append {history : List TopologyMessage}
    (hsubset : ∀ m ∈ history, m ∈ upTo last log) (hmem : msg ∈ history) :
    msg ∈ pruneRemoved history ∨ Doomed log last msg := by
  by_cases hkept : keeps (leftNodes history) msg = true
  · exact Or.inl (mem_pruneRemoved.mpr ⟨hmem, hkept⟩)
  · exact Or.inr (Doomed.of_subset hsubset (Bool.eq_false_iff.mpr hkept))

/-- A message beyond the history is taken, with everything below it that its
sender has handed over before. -/
theorem Merging.accept (h : Merging log last ops s) (hlog : msg ∈ upTo last log)
    (hbefore : ∀ old ∈ log, old.seq < msg.seq → old ∈ s.mHistory ∨ Doomed log last old)
    {s' : TopologyServer} (hsettled : s'.Settled)
    (hhistory : s'.mHistory = pruneRemoved (s.mHistory ++ [msg]))
    (hinc : Increasing TopologyMessage.seq log) :
    Merging log last (ops ++ [.data fd msg random]) s' := by
  have hsubset : ∀ m ∈ s.mHistory ++ [msg], m ∈ upTo last log := by
    intro m hm
    rcases List.mem_append.mp hm with hm | hm
    · exact h.within m hm
    · exact List.mem_singleton.mp hm ▸ hlog
  have hstays : ∀ m, m ∈ s.mHistory ∨ Doomed log last m → m ∈ s'.mHistory ∨ Doomed log last m := by
    intro m hm
    rw [hhistory]
    exact hm.elim (fun hm => mem_or_doomed_of_append hsubset (List.mem_append_left _ hm)) Or.inr
  have hself : msg ∈ s'.mHistory ∨ Doomed log last msg := by
    rw [hhistory]
    exact mem_or_doomed_of_append hsubset (by simp)
  refine ⟨hsettled, fun m hm => hsubset m ?_, fun m hm hlater => ?_, fun fd' m hm => ?_⟩
  · rw [hhistory] at hm
    exact pruneRemoved_sublist.subset hm
  · obtain ⟨later, hmem, hle⟩ := hlater
    rw [hhistory] at hmem
    rcases List.mem_append.mp (pruneRemoved_sublist.subset hmem) with hold | hnew
    · exact hstays m (h.covered m hm ⟨later, hold, hle⟩)
    · obtain rfl := List.mem_singleton.mp hnew
      rcases lt_or_eq_of_le hle with hlt | heq
      · exact hstays m (hbefore m hm hlt)
      · obtain rfl := hinc.eq_of_key_eq hm (mem_upTo.mp hlog).1 heq
        exact hself
  · rw [packets_append, packets_singleton, List.mem_append, Option.mem_toList] at hm
    rcases hm with hm | hm
    · exact hstays m (h.handed fd' m hm)
    · obtain rfl := HubOp.eq_of_mem_packet hm
      exact hself

/-- A message at or below the end of the history changes nothing. -/
theorem Merging.pass (h : Merging log last ops s) {s' : TopologyServer} (hsettled : s'.Settled)
    (hhistory : s'.mHistory = s.mHistory) {op : HubOp}
    (hpassed : ∀ fd, ∀ msg ∈ op.packet fd, msg ∈ s.mHistory ∨ Doomed log last msg) :
    Merging log last (ops ++ [op]) s' := by
  refine ⟨hsettled, ?_, ?_, fun fd msg hmem => ?_⟩
  · rw [hhistory]
    exact h.within
  · rw [hhistory]
    exact h.covered
  · rw [hhistory]
    rw [packets_append, packets_singleton, List.mem_append, Option.mem_toList] at hmem
    exact hmem.elim (h.handed fd msg) (hpassed fd msg)

/-- What its sender has not handed over below a message was pruned. -/
theorem Merging.below (h : Merging log last ops s) (hinc : Increasing TopologyMessage.seq log)
    (hle : given ≤ held) (hlast : held ≤ last)
    (hpackets : packets fd ops ++ [msg] <+: survivor log given held) :
    ∀ old ∈ log, old.seq < msg.seq → old ∈ s.mHistory ∨ Doomed log last old := by
  obtain ⟨rest, hrest⟩ := hpackets
  have hsurvivor : msg ∈ survivor log given held := by
    rw [← hrest]
    simp
  have hmsg := mem_upTo.mp (mem_of_mem_survivor hle hsurvivor)
  intro old hold hlt
  by_cases hmem : old ∈ survivor log given held
  · have hsorted := @survivor_increasing log given held hinc
    rw [← hrest, List.append_assoc, List.singleton_append] at hsorted hmem
    rcases List.mem_append.mp hmem with hbefore | hafter
    · exact h.handed fd old hbefore
    · rcases List.mem_cons.mp hafter with rfl | hafter
      · exact absurd hlt (lt_irrefl _)
      · have htail := (List.pairwise_append.mp hsorted).2.1
        exact absurd hlt (lt_asymm (List.rel_of_pairwise_cons htail hafter))
  · have hheld : old ∈ upTo held log := mem_upTo.mpr ⟨hold, le_trans (le_of_lt hlt) hmsg.2⟩
    exact Or.inr (doomed_of_not_mem_survivor hle hlast hheld hmem)

/-- **One call of the merge.**  A re-sent message beyond the history is appended; any other is in
the history, or doomed to be pruned. -/
theorem Merging.step (h : Merging log last ops s) (hinc : Increasing TopologyMessage.seq log)
    {op : HubOp} (hop : op.Resends) (hstep : s.step op = some s')
    {given held : Fd → UInt64} {fds : Finset Fd}
    (hle : ∀ fd ∈ fds, given fd ≤ held fd) (hlast : ∀ fd ∈ fds, held fd ≤ last)
    (hlog : ∀ msg ∈ log, msg.seq ≠ 0 ∧ msg.seq ≠ maxWord ∧ msg.nodeId ≠ 0)
    (hpackets : ∀ fd, packets fd (ops ++ [op]) <+:
      if fd ∈ fds then survivor log (given fd) (held fd) else []) :
    Merging log last (ops ++ [op]) s' := by
  obtain ⟨o, hperform, rfl⟩ := step_eq_some.mp hstep
  -- a message handed over comes from a survivor
  have hsender : ∀ {fd msg random}, op = .data fd msg random →
      fd ∈ fds ∧ packets fd ops ++ [msg] <+: survivor log (given fd) (held fd) := by
    rintro fd msg random rfl
    have hinitial := hpackets fd
    rw [packets_append, packets_singleton] at hinitial
    simp only [HubOp.packet, if_true, Option.toList_some] at hinitial
    by_cases hfd : fd ∈ fds
    · rw [if_pos hfd] at hinitial
      exact ⟨hfd, hinitial⟩
    · rw [if_neg hfd, List.prefix_nil] at hinitial
      simp at hinitial
  have hmem : ∀ {fd msg random}, op = .data fd msg random → msg ∈ upTo last log := by
    intro fd msg random heq
    obtain ⟨hfd, rest, hrest⟩ := hsender heq
    have hsurvivor : msg ∈ survivor log (given fd) (held fd) := by
      rw [← hrest]
      simp
    have hheld := mem_upTo.mp (mem_of_mem_survivor (hle fd hfd) hsurvivor)
    exact mem_upTo.mpr ⟨hheld.1, le_trans hheld.2 (hlast fd hfd)⟩
  rcases perform_cases hperform with ⟨fd, rfl, hfd, rfl⟩ | ⟨fd, msg, random, rfl, hid, rfl⟩ |
    ⟨u, failed, hupdate, hserver, _, _⟩
  · exact h.pass (h.settled.connect hfd) rfl fun fd' msg hmsg => by cases hmsg
  · exact absurd hid (hlog msg (mem_upTo.mp (hmem rfl)).1).2.2
  · have hhistory : o.server.mHistory = pruneRemoved u.mHistory := by
      rw [hserver, settle_mHistory]
    generalize o.minted = minted at hupdate
    generalize o.accepted = accepted at hupdate
    cases hupdate with
    | redundant _ _ hseq _ => exact absurd hseq (hlog _ (mem_upTo.mp (hmem rfl)).1).1
    | novel _ _ hseq _ => exact absurd hseq (hlog _ (mem_upTo.mp (hmem rfl)).1).1
    | disconnect _ => exact hop.elim
    | purge _ _ => exact hop.elim
    | @newest fd msg random client hclient hid hseq hhit =>
        obtain ⟨hfd, hinitial⟩ := hsender rfl
        have hmax := (hlog msg (mem_upTo.mp (hmem rfl)).1).2.1
        refine h.accept (hmem rfl) (h.below hinc (hle fd hfd) (hlast fd hfd) hinitial) ?_
          hhistory hinc
        rw [hserver]
        have hupdate : Updates s (.data fd msg random) _ _ _ _ := .newest hclient hid hseq hhit
        exact h.settled.update hupdate hmax (UInt64.toNat_lt _)
    | @held fd msg found random client hclient hid hseq hhit =>
        have hmax := (hlog msg (mem_upTo.mp (hmem rfl)).1).2.1
        refine h.pass ?_ (hhistory.trans h.settled.pruned) fun fd' m hm => ?_
        · rw [hserver]
          have hupdate : Updates s (.data fd msg random) _ _ _ _ := .held hclient hid hseq hhit
          exact h.settled.update hupdate hmax (UInt64.toNat_lt _)
        · rw [HubOp.eq_of_mem_packet hm]
          have hbehind : ¬ ∀ old ∈ s.mHistory, old.seq < msg.seq := by
            rw [← h.settled.ordered.hit_eq_none_iff, hhit]
            simp
          push Not at hbehind
          exact h.covered msg (mem_upTo.mp (hmem rfl)).1 hbehind

/-- **Every run of the merge,** in whatever order the survivors' packets are taken. -/
theorem merging_of_exec {given held : Fd → UInt64} {fds : Finset Fd}
    (hinc : Increasing TopologyMessage.seq log)
    (hlog : ∀ msg ∈ log, msg.seq ≠ 0 ∧ msg.seq ≠ maxWord ∧ msg.nodeId ≠ 0)
    (hle : ∀ fd ∈ fds, given fd ≤ held fd) (hlast : ∀ fd ∈ fds, held fd ≤ last)
    (hops : ∀ op ∈ ops, op.Resends)
    (hpackets : ∀ fd, packets fd ops <+:
      if fd ∈ fds then survivor log (given fd) (held fd) else [])
    (hrun : exec step (create []) ops = some s) : Merging log last ops s := by
  induction ops using List.reverseRecOn generalizing s with
  | nil =>
      obtain rfl : create [] = s := by simpa using hrun
      exact ⟨create_settled, by simp [create], by simp [create], by simp [packets]⟩
  | append_singleton pre op ih =>
      rw [exec_append, Option.bind_eq_some_iff] at hrun
      obtain ⟨s₁, hrun₁, hstep⟩ := hrun
      have hstep : s₁.step op = some s := by simpa using hstep
      have hinitial : ∀ fd, packets fd pre <+: packets fd (pre ++ [op]) := by
        intro fd
        rw [packets_append]
        exact List.prefix_append _ _
      refine (ih ?_ (fun fd => (hinitial fd).trans (hpackets fd)) hrun₁).step hinc ?_ hstep hle
        hlast hlog hpackets
      · exact fun op' hop => hops op' (List.mem_append_left _ hop)
      · exact hops op (List.mem_append_right _ List.mem_cons_self)

/-- **Order-independent merge.**  Survivors of a hub re-send their histories of
one log to a hub that starts empty.  However their messages interleave, the
history they leave is the pruned log up to the furthest of them. -/
theorem merge_of_survivors {fds : Finset Fd} {given held : Fd → UInt64}
    (hinc : Increasing TopologyMessage.seq log)
    (hlog : ∀ msg ∈ log, msg.seq ≠ 0 ∧ msg.seq ≠ maxWord ∧ msg.uid ≠ 0 ∧ msg.nodeId ≠ 0)
    (hle : ∀ fd ∈ fds, given fd ≤ held fd) (hops : ∀ op ∈ ops, op.Resends)
    (hpackets : ∀ fd, packets fd ops =
      if fd ∈ fds then survivor log (given fd) (held fd) else [])
    (hrun : exec step (create []) ops = some s) :
    s.mHistory = pruneRemoved (upTo (fds.sup held) log) := by
  have hlast : ∀ fd ∈ fds, held fd ≤ fds.sup held := fun fd hfd => Finset.le_sup hfd
  have h : Merging log (fds.sup held) ops s := by
    refine merging_of_exec hinc ?_ hle hlast hops (fun fd => ?_) hrun
    · exact fun msg hmem => ⟨(hlog msg hmem).1, (hlog msg hmem).2.1, (hlog msg hmem).2.2.2⟩
    · rw [hpackets fd]
  -- every message up to the last one of the furthest survivor is there or doomed
  have hall : ∀ msg ∈ upTo (fds.sup held) log,
      msg ∈ s.mHistory ∨ Doomed log (fds.sup held) msg := by
    intro msg hmem
    obtain ⟨hmsg, hsup⟩ := mem_upTo.mp hmem
    have hpos : 0 < msg.seq := word_pos_iff.mpr (hlog msg hmsg).1
    obtain ⟨fd, hfd, hheld⟩ := (Finset.le_sup_iff hpos).mp hsup
    by_cases hsurvivor : msg ∈ survivor log (given fd) (held fd)
    · refine h.handed fd msg ?_
      rw [hpackets fd, if_pos hfd]
      exact hsurvivor
    · exact Or.inr (doomed_of_not_mem_survivor (hle fd hfd) (hlast fd hfd)
        (mem_upTo.mpr ⟨hmsg, hheld⟩) hsurvivor)
  have hleft : leftNodes s.mHistory = leftNodes (upTo (fds.sup held) log) := by
    refine Finset.Subset.antisymm (leftNodes_mono h.within) fun id hid => ?_
    obtain ⟨leave, hmem, hleave⟩ := mem_leftNodes.mp hid
    rcases hall leave hmem with hstays | hdoomed
    · exact mem_leftNodes.mpr ⟨leave, hstays, hleave⟩
    · rw [Doomed, keeps_leave hleave] at hdoomed
      cases hdoomed
  refine h.settled.increasing.ext (hinc.sublist (pruneRemoved_sublist.trans List.filter_sublist)) ?_
  intro msg
  rw [mem_pruneRemoved]
  constructor
  · intro hmem
    refine ⟨h.within msg hmem, ?_⟩
    rw [← hleft]
    exact pruneRemoved_eq_self_iff.mp h.settled.pruned msg hmem
  · rintro ⟨hmem, hkept⟩
    refine (hall msg hmem).elim id fun hdoomed => ?_
    rw [Doomed, hkept] at hdoomed
    cases hdoomed

/-- What a hub minted before it died. -/
def lostHub : List TopologyMessage :=
  [{ seq := 1, uid := 51, op := .nodeChange { id := 5, op := .join, name := "five" } },
    { seq := 2, uid := 52, op := .nodeChange { id := 6, op := .join, name := "six" } },
    { seq := 3, uid := 53, op := .topicChange { name := "topic", nodeId := 6, op := .subscribe } },
    { seq := 4, uid := 54, op := .nodeChange { id := 5, op := .leave } },
    { seq := 7, uid := 55, op := .nodeChange { id := 7, op := .join, name := "seven" } }]

/-- One survivor was given two messages and sent two more, the other was given
four, less the one that was pruned, and sent the last. -/
def resentByTwo : List HubOp :=
  [HubOp.connect 3] ++ ((survivor lostHub 2 4).take 3).map (HubOp.data 3 · 0) ++
    [HubOp.connect 4] ++ (survivor lostHub 4 7).map (HubOp.data 4 · 0) ++
    ((survivor lostHub 2 4).drop 3).map (HubOp.data 3 · 0)

/-- The first survivor has heard four messages and the second seven; the new hub has what is
left of the seven. -/
theorem merge_of_survivors_resentByTwo :
    ((exec step (create []) resentByTwo).getD (create [])).mHistory =
      pruneRemoved (upTo (({3, 4} : Finset Fd).sup fun fd => if fd = 3 then 4 else 7) lostHub) := by
  refine @merge_of_survivors lostHub resentByTwo _ {3, 4} (fun fd => if fd = 3 then 2 else 4) _
    (by decide) (by decide) (by decide) (by decide +kernel) ?_ (by decide +kernel)
  intro fd
  by_cases h3 : fd = 3
  · subst h3
    decide +kernel
  · by_cases h4 : fd = 4
    · subst h4
      decide +kernel
    · simp only [resentByTwo, packets_append, packets_map_data, packets_singleton, HubOp.packet,
        if_neg (Ne.symm h3), if_neg (Ne.symm h4)]
      simp [h3, h4]

end TopologyServer

end IpcPubsub
