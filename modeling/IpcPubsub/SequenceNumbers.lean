import IpcPubsub.HistoryOrder

/-!
# No sequence number is minted twice

`mNextSeq` counts what is minted, but an accepted old message sets it to what
follows its own number.  The message only has to be beyond the history, and
pruning may have taken the end of the history away: numbers that were minted and
pruned are then handed out again.

A run is followed with the values `mNextSeq` has had and the numbers minted so
far (`Ledger`).  The values never decrease, no number is minted twice and zero is
never minted, exactly when every accepted message is at most one below
`mNextSeq` and neither accepting nor minting takes `mNextSeq` to `2 ^ 64`.
-/

namespace IpcPubsub

open GuardedRuns LowerBound WordOrder CursorLog

/-- A hub with the values `mNextSeq` has had, in order, and the numbers it has
minted. -/
structure Ledger where
  server : TopologyServer
  marks : List UInt64
  minted : List UInt64 := []
  deriving DecidableEq

namespace Ledger

/-- A hub that has just been created. -/
def start (digest : List TopologyMessage) : Ledger where
  server := .create digest
  marks := [(TopologyServer.create digest).mNextSeq]

/-- Record a call. -/
def step (l : Ledger) (op : HubOp) : Option Ledger :=
  (l.server.perform op).map fun o =>
    { server := o.server
      marks := l.marks ++ [o.server.mNextSeq]
      minted := l.minted ++ o.minted.map TopologyMessage.seq }

/-- `mNextSeq` has not decreased, and no number was minted twice, nor zero. -/
structure Sound (l : Ledger) : Prop where
  marks_sorted : l.marks.Pairwise (· ≤ ·)
  minted_nodup : l.minted.Nodup
  minted_ne_zero : 0 ∉ l.minted

instance (l : Ledger) : Decidable l.Sound :=
  decidable_of_iff (l.marks.Pairwise (· ≤ ·) ∧ l.minted.Nodup ∧ 0 ∉ l.minted)
    ⟨fun h => ⟨h.1, h.2.1, h.2.2⟩, fun h => ⟨h.1, h.2, h.3⟩⟩

end Ledger

namespace TopologyServer

/-- What a call must meet for the count to go on.  An accepted message is at
most one below `mNextSeq`, and `2 ^ 64` is not reached. -/
def CountsOn (s : TopologyServer) : HubOp → Prop
  | .connect _ => True
  | .data fd msg _ => msg.nodeId ≠ 0 →
      (msg.seq = 0 → (∀ client ∈ s.mClients.lookup fd, isRedundant msg client = false →
        s.mNextSeq ≠ maxWord)) ∧
      (msg.seq ≠ 0 → (∀ old ∈ s.mHistory, old.seq < msg.seq) →
        msg.seq ≠ maxWord ∧ s.mNextSeq ≤ msg.seq + 1)
  | .disconnect _ => s.mNextSeq ≠ maxWord
  | .purge order =>
      s.mNextSeq.toNat + (order.filter fun id => id ∉ s.connected).length < 2 ^ 64

instance (s : TopologyServer) : DecidablePred s.CountsOn
  | .connect _ => isTrue trivial
  | .data fd msg _ => inferInstanceAs (Decidable (msg.nodeId ≠ 0 →
      (msg.seq = 0 → (∀ client ∈ s.mClients.lookup fd, isRedundant msg client = false →
        s.mNextSeq ≠ maxWord)) ∧
      (msg.seq ≠ 0 → (∀ old ∈ s.mHistory, old.seq < msg.seq) →
        msg.seq ≠ maxWord ∧ s.mNextSeq ≤ msg.seq + 1)))
  | .disconnect _ => inferInstanceAs (Decidable (s.mNextSeq ≠ maxWord))
  | .purge order => inferInstanceAs (Decidable
      (s.mNextSeq.toNat + (order.filter fun id => id ∉ s.connected).length < 2 ^ 64))

variable {s u : TopologyServer} {op : HubOp} {minted accepted : List TopologyMessage}
  {failed : List Assertion}

/-- The LEAVEs of a disconnect or a purge have the numbers that come next. -/
theorem mintLeaves_numbers (s : TopologyServer) (ids : List UInt64) :
    (s.mintLeaves ids).2.map TopologyMessage.seq = wordsFrom s.mNextSeq ids.length ∧
      (s.mintLeaves ids).1.mNextSeq = wordAfter s.mNextSeq ids.length := by
  induction ids generalizing s with
  | nil => exact ⟨rfl, rfl⟩
  | cons id ids ih =>
      obtain ⟨hminted, hnext⟩ := ih (s.mint (leaveMessage id))
      refine ⟨?_, hnext⟩
      rw [mintLeaves, List.map_cons, hminted]
      rfl

/-- An update mints the next numbers in a row, or it accepts a message beyond
the history and goes on after it. -/
inductive Numbers (s u : TopologyServer) (op : HubOp) (minted : List TopologyMessage) : Prop
  | counted (n : Nat) (hguard : s.CountsOn op ↔ s.mNextSeq.toNat + n < 2 ^ 64)
      (hminted : minted.map TopologyMessage.seq = wordsFrom s.mNextSeq n)
      (hnext : u.mNextSeq = wordAfter s.mNextSeq n)
  | accepted (seq : UInt64) (hguard : s.CountsOn op ↔ seq ≠ maxWord ∧ s.mNextSeq ≤ seq + 1)
      (hminted : minted = []) (hnext : u.mNextSeq = seq + 1)

/-- A number has a successor unless it is the last one. -/
theorem toNat_lt_iff_ne_maxWord {w : UInt64} : w.toNat + 1 < 2 ^ 64 ↔ w ≠ maxWord := by
  have hmax : maxWord.toNat = 18446744073709551615 := rfl
  have := w.toNat_lt
  rw [Ne, ← UInt64.toNat_inj, hmax]
  omega

/-- **One update** counts on from `mNextSeq`, or from the number it accepts. -/
theorem Updates.numbers (h : Updates s op u minted accepted failed) (hordered : s.Ordered) :
    Numbers s u op minted := by
  cases h with
  | redundant hclient hid hseq hredundant =>
      have hroom := s.mNextSeq.toNat_lt
      refine .counted 0 ?_ rfl rfl
      simp [CountsOn, hseq, hid, hclient, hredundant, hroom]
  | novel hclient hid hseq hredundant =>
      refine .counted 1 ?_ rfl rfl
      rw [toNat_lt_iff_ne_maxWord]
      simp [CountsOn, hseq, hid, hclient, hredundant]
  | @newest fd msg random client hclient hid hseq hhit =>
      have hbeyond := (hordered.hit_eq_none_iff msg).mp hhit
      refine .accepted msg.seq ⟨fun h => (h hid).2 hseq hbeyond, fun h _ => ?_⟩ rfl rfl
      exact ⟨fun hzero => absurd hzero hseq, fun _ _ => h⟩
  | @held fd msg found random client hclient hid hseq hhit =>
      have hroom := s.mNextSeq.toNat_lt
      have hheld : ¬ ∀ old ∈ s.mHistory, old.seq < msg.seq := by
        intro hbeyond
        rw [(hordered.hit_eq_none_iff msg).mpr hbeyond] at hhit
        cases hhit
      refine .counted 0 ⟨fun _ => by omega, fun _ _ => ?_⟩ rfl rfl
      exact ⟨fun hzero => absurd hzero hseq, fun _ hbeyond => absurd hbeyond hheld⟩
  | disconnect hclient => exact .counted 1 toNat_lt_iff_ne_maxWord.symm rfl rfl
  | @purge order hnodup horder =>
      obtain ⟨hminted, hnext⟩ := mintLeaves_numbers s (order.filter fun id => id ∉ s.connected)
      exact .counted _ Iff.rfl hminted hnext

/-- A guarded update takes no message with the largest number, after which the counter would be 0. -/
theorem Updates.belowMax (h : Updates s op u minted accepted failed) (hordered : s.Ordered)
    (hguard : s.CountsOn op) : op.BelowMax := by
  have hzero : (0 : UInt64) ≠ maxWord := by decide
  cases h with
  | redundant _ _ hseq _ => exact fun heq => hzero (hseq.symm.trans heq)
  | novel _ _ hseq _ => exact fun heq => hzero (hseq.symm.trans heq)
  | @newest _ msg _ _ _ hid hseq hhit =>
      exact ((hguard hid).2 hseq ((hordered.hit_eq_none_iff msg).mp hhit)).1
  | @held _ msg found _ _ _ hid hseq hhit =>
      intro heq
      have hbeyond : ∀ old ∈ s.mHistory, old.seq < msg.seq := fun old hold => by
        rw [heq]
        exact lt_of_lt_of_le (hordered.below old hold) (le_maxWord _)
      rw [(hordered.hit_eq_none_iff msg).mpr hbeyond] at hhit
      cases hhit
  | disconnect _ => trivial
  | purge _ _ => trivial

/-- **One call** counts as its update does, since pruning and broadcasting draw no number. -/
theorem numbers_of_perform {o : Outcome} (h : s.perform op = some o) (hordered : s.Ordered) :
    Numbers s o.server op o.minted := by
  have hroom := s.mNextSeq.toNat_lt
  rcases perform_cases h with ⟨fd, rfl, _, rfl⟩ | ⟨fd, msg, random, rfl, hid, rfl⟩ |
    ⟨u, failed, hupdate, hserver, _, _⟩
  · exact .counted 0 ⟨fun _ => by omega, fun _ => trivial⟩ rfl rfl
  · exact .counted 0 ⟨fun _ => by omega, fun _ hne => absurd hid hne⟩ rfl rfl
  · have hnext : o.server.mNextSeq = u.mNextSeq := by rw [hserver, settle_mNextSeq]
    cases hupdate.numbers hordered with
    | counted n hguard hminted hnumber =>
        exact .counted n hguard hminted (hnext.trans hnumber)
    | accepted seq hguard hminted hnumber =>
        exact .accepted seq hguard hminted (hnext.trans hnumber)

/-- A guarded call keeps the history in order and below `mNextSeq`. -/
theorem perform_countsOn_ordered {o : Outcome} (h : s.perform op = some o)
    (hordered : s.Ordered) (hguard : s.CountsOn op) : o.server.Ordered := by
  have hnumbers := numbers_of_perform h hordered
  rcases perform_cases h with ⟨fd, rfl, _, rfl⟩ | ⟨fd, msg, random, rfl, _, rfl⟩ |
    ⟨u, failed, hupdate, hserver, _, _⟩
  · exact ⟨hordered.sorted, hordered.below⟩
  · exact hordered
  · have hroom : s.mNextSeq.toNat + o.minted.length < 2 ^ 64 := by
      cases hnumbers with
      | counted n hiff hminted _ =>
          have hlength : o.minted.length = n := by
            have hmap := congrArg List.length hminted
            rwa [List.length_map, length_wordsFrom] at hmap
          rw [hlength]
          exact hiff.mp hguard
      | accepted seq _ hminted _ =>
          have := s.mNextSeq.toNat_lt
          rw [hminted, List.length_nil]
          omega
    rw [hserver]
    exact (hupdate.ordered hordered (hupdate.belowMax hordered hguard) hroom).1.settle

end TopologyServer

namespace Ledger

open TopologyServer

variable {l l' : Ledger} {op : HubOp}

/-- A step is a call and what the ledger notes of it. -/
theorem step_eq_some :
    l.step op = some l' ↔ ∃ o, l.server.perform op = some o ∧
      l' = { server := o.server, marks := l.marks ++ [o.server.mNextSeq],
             minted := l.minted ++ o.minted.map TopologyMessage.seq } := by
  simp [step, eq_comm]

/-- The ledger of a hub whose numbers have gone up. -/
structure Counting (l : Ledger) : Prop where
  ordered : l.server.Ordered
  positive : l.server.mNextSeq ≠ 0
  sound : l.Sound
  current : l.server.mNextSeq ∈ l.marks
  marks_le : ∀ mark ∈ l.marks, mark ≤ l.server.mNextSeq
  minted_lt : ∀ number ∈ l.minted, number < l.server.mNextSeq

/-- A hub that takes over a sorted digest counts on from its end. -/
theorem Counting.start {digest : List TopologyMessage}
    (hsorted : digest.Pairwise fun msg msg' => msg.seq < msg'.seq)
    (hmax : ∀ msg ∈ digest, msg.seq < maxWord) : (Ledger.start digest).Counting where
  ordered := create_ordered (hsorted.imp le_of_lt) fun msg hmem => ne_of_lt (hmax msg hmem)
  positive := by
    rcases List.eq_nil_or_concat' digest with rfl | ⟨before, last, rfl⟩
    · decide
    · have hnext : (Ledger.start (before ++ [last])).server.mNextSeq = last.seq + 1 := by
        simp [Ledger.start, create]
      rw [hnext]
      exact word_pos_iff.mp (lt_of_le_of_lt (zero_le_word last.seq)
        (lt_add_one (ne_of_lt (hmax last (by simp)))))
  sound := ⟨List.pairwise_singleton _ _, List.nodup_nil, List.not_mem_nil⟩
  current := List.mem_singleton.mpr rfl
  marks_le := fun mark hmark => le_of_eq (List.mem_singleton.mp hmark)
  minted_lt := fun number hnumber => by cases hnumber

/-- The values of `mNextSeq` stay sorted as long as it does not decrease. -/
theorem Counting.marks_append (h : l.Counting) {next : UInt64} (hle : l.server.mNextSeq ≤ next) :
    (l.marks ++ [next]).Pairwise (· ≤ ·) ∧ ∀ mark ∈ l.marks ++ [next], mark ≤ next := by
  have hbelow : ∀ mark ∈ l.marks, mark ≤ next := fun mark hmark =>
    le_trans (h.marks_le mark hmark) hle
  refine ⟨List.pairwise_append.mpr ⟨h.sound.marks_sorted, List.pairwise_singleton _ _, ?_⟩, ?_⟩
  · intro mark hmark mark' hmark'
    rw [List.mem_singleton.mp hmark']
    exact hbelow mark hmark
  · intro mark hmark
    rcases List.mem_append.mp hmark with hmark | hmark
    · exact hbelow mark hmark
    · exact le_of_eq (List.mem_singleton.mp hmark)

/-- As long as it does not decrease it does not get back to zero. -/
theorem Counting.ne_zero (h : l.Counting) {next : UInt64} (hle : l.server.mNextSeq ≤ next) :
    next ≠ 0 :=
  word_pos_iff.mp (lt_of_lt_of_le (word_pos_iff.mpr h.positive) hle)

/-- **A guarded call counts on:** what it mints is numbered beyond all that was minted before. -/
theorem Counting.step (h : l.Counting) (hguard : l.server.CountsOn op)
    (hstep : l.step op = some l') : l'.Counting := by
  obtain ⟨o, hop, rfl⟩ := step_eq_some.mp hstep
  have hordered := perform_countsOn_ordered hop h.ordered hguard
  cases numbers_of_perform hop h.ordered with
  | counted n hiff hminted hnext =>
      have hroom := hiff.mp hguard
      have hle : l.server.mNextSeq ≤ o.server.mNextSeq := by
        rw [hnext, UInt64.le_iff_toNat_le, toNat_wordAfter hroom]
        omega
      obtain ⟨hsorted, hmarks⟩ := h.marks_append hle
      have hnew : ∀ number ∈ o.minted.map TopologyMessage.seq,
          l.server.mNextSeq ≤ number ∧ number < o.server.mNextSeq := by
        intro number hnumber
        rw [hminted] at hnumber
        rw [hnext]
        exact mem_wordsFrom hroom hnumber
      refine ⟨hordered, h.ne_zero hle, ⟨hsorted, ?_, ?_⟩, by simp, hmarks, ?_⟩
      · refine List.nodup_append.mpr ⟨h.sound.minted_nodup, hminted ▸ nodup_wordsFrom hroom, ?_⟩
        intro old hold new hmem
        exact ne_of_lt (lt_of_lt_of_le (h.minted_lt old hold) (hnew new hmem).1)
      · intro hzero
        rcases List.mem_append.mp hzero with hzero | hzero
        · exact h.sound.minted_ne_zero hzero
        · exact h.positive (le_antisymm (hnew 0 hzero).1 (zero_le_word _))
      · intro number hnumber
        rcases List.mem_append.mp hnumber with hnumber | hnumber
        · exact lt_of_lt_of_le (h.minted_lt number hnumber) hle
        · exact (hnew number hnumber).2
  | accepted seq hiff hminted hnext =>
      have hle : l.server.mNextSeq ≤ o.server.mNextSeq := hnext ▸ (hiff.mp hguard).2
      obtain ⟨hsorted, hmarks⟩ := h.marks_append hle
      simp only [hminted, List.map_nil, List.append_nil]
      refine ⟨hordered, h.ne_zero hle,
        ⟨hsorted, h.sound.minted_nodup, h.sound.minted_ne_zero⟩, by simp, hmarks, ?_⟩
      exact fun number hnumber => lt_of_lt_of_le (h.minted_lt number hnumber) hle

/-- **Any other call miscounts at once,** by a number that was given out before or by a counter
that goes back. -/
theorem Counting.not_sound (h : l.Counting) (hguard : ¬ l.server.CountsOn op)
    (hstep : l.step op = some l') : ¬ l'.Sound := by
  obtain ⟨o, hop, rfl⟩ := step_eq_some.mp hstep
  rintro ⟨hsorted, _, hzero⟩
  have hle : l.server.mNextSeq ≤ o.server.mNextSeq :=
    (List.pairwise_append.mp hsorted).2.2 _ h.current _ (List.mem_singleton.mpr rfl)
  have hpositive : o.server.mNextSeq ≠ 0 := h.ne_zero hle
  cases numbers_of_perform hop h.ordered with
  | counted n hiff hminted hnext =>
      have hfull : 2 ^ 64 ≤ l.server.mNextSeq.toNat + n :=
        not_lt.mp fun hroom => hguard (hiff.mpr hroom)
      rcases zero_of_wordsFrom h.positive hfull with hmem | hafter
      · exact hzero (List.mem_append_right _ (hminted ▸ hmem))
      · exact hpositive (hnext.trans hafter)
  | accepted seq hiff _ hnext =>
      refine hguard (hiff.mpr ⟨?_, hnext ▸ hle⟩)
      rintro rfl
      exact hpositive hnext

/-- **Sequence numbers, exactly.**  From a digest with strictly increasing
numbers below the largest word, in every state of a run `mNextSeq` has never
decreased, no number has been minted twice and zero has not been minted, exactly
when every call of the run counts on. -/
theorem sound_iff_countsOn (digest : List TopologyMessage) (ops : List HubOp) {l : Ledger}
    (hsorted : digest.Pairwise fun msg msg' => msg.seq < msg'.seq)
    (hmax : ∀ msg ∈ digest, msg.seq < maxWord)
    (hrun : exec Ledger.step (start digest) ops = some l) :
    Throughout Ledger.step Sound (start digest) ops ↔
      Along Ledger.step (fun l op => l.server.CountsOn op) (start digest) ops :=
  throughout_iff_along (D := fun _ _ => True) (I := Counting) (fun _ h => h.sound)
    (fun _ _ _ h _ hguard hstep => h.step hguard hstep)
    (fun _ _ _ h _ hguard hstep => h.not_sound hguard hstep)
    (Counting.start hsorted hmax) (along_true _ _) hrun

/-- A node joins and leaves. -/
def joinAndLeave : List HubOp :=
  [.connect 3, .data 3 { op := .nodeChange { id := 5, op := .join } } 11, .disconnect 3]

/-- Each of its three calls counts on from the last number. -/
theorem sound_iff_countsOn_joinAndLeave :
    Throughout Ledger.step Sound (start []) joinAndLeave :=
  (sound_iff_countsOn [] joinAndLeave List.Pairwise.nil (fun _ h => by cases h)
    (Option.some_get (by decide +kernel)).symm).mpr (by decide +kernel)

/-- After node 5 has left, what it says is minted and pruned at once, as 3 and
4; then node 6 sends a message numbered 3, and node 7 one to be minted. -/
def mintedTwice : List HubOp :=
  joinAndLeave ++
    [.connect 3, .data 3 { op := .nodeChange { id := 5, op := .join } } 12,
      .data 3 { op := .nodeChange { id := 5, op := .join, name := "b" } } 13,
      .data 3 { seq := 3, uid := 14, op := .nodeChange { id := 6, op := .join } } 0,
      .data 3 { op := .nodeChange { id := 7, op := .join } } 15]

/-- `mNextSeq` goes back from 5 to 4, and 4 is minted twice. -/
theorem mintedTwice_not_sound :
    ∃ l, exec Ledger.step (start []) mintedTwice = some l ∧
      l.marks = [1, 1, 2, 3, 3, 4, 5, 4, 5] ∧ l.minted = [1, 2, 3, 4, 4] := by
  refine ⟨_, (Option.some_get (by decide +kernel)).symm, ?_, ?_⟩ <;> decide +kernel

end Ledger

end IpcPubsub
