import IpcPubsub.HubRuns
import IpcPubsub.Reconnect

/-!
# Hub transfer

Hubs come and go.  A manager keeps everything it has received and re-sends it to
the next hub it meets; it may also serve as that hub, with its own history as
the digest.  `AddOldMessage` asserts that a re-sent message it accepts has a
uid, and that a message it already has under the same sequence number and uid is
the same message.

A minted uid tells two messages apart wherever they travel.  But the LEAVEs that
`OnDisconnect` and `PurgeDisconnected` mint have no uid, and they are kept and
re-sent like everything else.  `hub_transfer_iff` says that they alone trip the
assertions, and when.
-/

namespace IpcPubsub

open FiniteMap GuardedRuns TopologyServer

/-- All hubs that ever run, all managers, and all that was ever minted. -/
structure Cluster where
  hubs : Nat → Hub
  managers : Nat → TopologyManager
  minted : List TopologyMessage := []

inductive ClusterEvent
  /-- A manager starts a hub with its history. -/
  | serves (manager hub : Nat)
  /-- A manager is connected to a hub, or the hub's timer fires. -/
  | call (manager hub : Nat) (op : HubOp)
  /-- A manager applies what a hub has sent on a connection. -/
  | receives (manager hub : Nat) (fd : Fd) (msg : TopologyMessage)

namespace Cluster

def start (managers : Nat → TopologyManager) : Cluster where
  hubs := fun _ => .start []
  managers := managers

def step (c : Cluster) : ClusterEvent → Option Cluster
  | .serves i k => some { c with
      hubs := Function.update c.hubs k (.start (c.managers i).mHistory) }
  | .call _ k op =>
      ((c.hubs k).server.perform op).map fun o => { c with
        hubs := Function.update c.hubs k ((c.hubs k).observe op o)
        minted := c.minted ++ o.minted }
  | .receives i _ _ msg => some { c with
      managers := Function.update c.managers i ((c.managers i).applyUpdate msg).1 }

/-- A fresh message draws a uid that is not 0 and was not drawn before; an old
one stands in the history of the manager that sends it; and managers apply what
they were sent. -/
def Honest (c : Cluster) : ClusterEvent → Prop
  | .call i _ (.data _ msg random) =>
      msg.seq = 0 ∧ random ≠ 0 ∧ (∀ m ∈ c.minted, m.uid ≠ random) ∨
        msg.seq ≠ 0 ∧ msg ∈ (c.managers i).mHistory
  | .receives _ k fd msg => msg ∈ (c.hubs k).sent fd
  | _ => True

instance (c : Cluster) : DecidablePred c.Honest
  | .serves _ _ => isTrue trivial
  | .receives _ _ _ _ => inferInstanceAs (Decidable (_ ∈ _))
  | .call _ _ (.data _ _ _) => inferInstanceAs (Decidable (_ ∧ _ ∧ (∀ m ∈ c.minted, _) ∨ _ ∧ _))
  | .call _ _ (.connect _) => isTrue trivial
  | .call _ _ (.disconnect _) => isTrue trivial
  | .call _ _ (.purge _) => isTrue trivial

/-- Neither assertion of `AddOldMessage` fails. -/
def AssertsHold (c : Cluster) : ClusterEvent → Prop
  | .call _ k op => ∀ o ∈ (c.hubs k).server.perform op,
      .oldUid ∉ o.failed ∧ .oldMatch ∉ o.failed
  | _ => True

instance (c : Cluster) : DecidablePred c.AssertsHold
  | .serves _ _ => isTrue trivial
  | .receives _ _ _ _ => isTrue trivial
  | .call _ k op =>
      inferInstanceAs (Decidable (∀ o ∈ (c.hubs k).server.perform op, _ ∉ _ ∧ _ ∉ _))

/-- A re-sent message without a uid finds the end of the history beyond it, and
no other message without a uid under its number. -/
def LeavesKnown (c : Cluster) : ClusterEvent → Prop
  | .call _ k (.data _ msg _) =>
      msg.nodeId ≠ 0 → msg.seq ≠ 0 → msg.uid = 0 →
        ∃ found, (c.hubs k).server.hit msg = some found ∧
          (found.seq = msg.seq → found.uid = 0 → found = msg)
  | _ => True

/-- Everything in any history was minted, and a minted uid names one message. -/
structure Traced (c : Cluster) : Prop where
  history : ∀ k, ∀ msg ∈ (c.hubs k).server.mHistory, msg ∈ c.minted
  sent : ∀ k fd, ∀ msg ∈ (c.hubs k).sent fd, msg ∈ c.minted
  held : ∀ i, ∀ msg ∈ (c.managers i).mHistory, msg ∈ c.minted
  unique : ∀ msg ∈ c.minted, ∀ msg' ∈ c.minted, msg.uid = msg'.uid → msg.uid ≠ 0 → msg = msg'

variable {c c' : Cluster} {event : ClusterEvent}

/-- Before the first call nothing has been given to anybody. -/
theorem start_traced {managers : Nat → TopologyManager}
    (hfresh : ∀ i, (managers i).mHistory = []) : (start managers).Traced where
  history := fun _ msg hmem => by cases hmem
  sent := fun _ _ msg hmem => by cases hmem
  held := fun i msg hmem => by
    have hmem' : msg ∈ (managers i).mHistory := hmem
    rw [hfresh i] at hmem'
    cases hmem'
  unique := fun msg hmem => by cases hmem

variable {manager hub : Nat} {op : HubOp} {o : Outcome}

/-- What a call adds has been minted, now or before. -/
theorem Traced.added (h : c.Traced) (hhonest : c.Honest (.call manager hub op))
    (hop : (c.hubs hub).server.perform op = some o) :
    ∀ msg ∈ o.added, msg ∈ c.minted ++ o.minted := by
  intro msg hmem
  rcases List.mem_append.mp hmem with hminted | haccepted
  · exact List.mem_append_right _ hminted
  · obtain ⟨fd, random, rfl, hseq⟩ := perform_accepted hop haccepted
    rcases hhonest with ⟨hzero, _⟩ | ⟨_, hheld⟩
    · exact absurd hzero hseq
    · exact List.mem_append_left _ (h.held manager msg hheld)

/-- Minting keeps uids distinct, for those drawn are new; only the LEAVEs share the uid 0. -/
theorem Traced.minted_unique (h : c.Traced) (hhonest : c.Honest (.call manager hub op))
    (hop : (c.hubs hub).server.perform op = some o) :
    ∀ msg ∈ c.minted ++ o.minted, ∀ msg' ∈ c.minted ++ o.minted,
      msg.uid = msg'.uid → msg.uid ≠ 0 → msg = msg' := by
  -- what is minted has no uid, or is a single message with a uid not seen before
  have hnew : ∀ new ∈ o.minted, new.uid ≠ 0 →
      o.minted = [new] ∧ ∀ old ∈ c.minted, old.uid ≠ new.uid := by
    intro new hmem huid
    rcases perform_minted hop hmem with hzero | ⟨fd, msg, random, rfl, hseq, hsingle, hrandom⟩
    · exact absurd hzero huid
    · rcases hhonest with ⟨_, _, hfresh⟩ | ⟨hne, _⟩
      · exact ⟨hsingle, fun old hold => hrandom ▸ hfresh old hold⟩
      · exact absurd hseq hne
  intro msg hmsg msg' hmsg' heq huid
  rcases List.mem_append.mp hmsg with hold | hnow <;>
    rcases List.mem_append.mp hmsg' with hold' | hnow'
  · exact h.unique msg hold msg' hold' heq huid
  · exact absurd heq ((hnew msg' hnow' (heq ▸ huid)).2 msg hold)
  · exact absurd heq.symm ((hnew msg hnow huid).2 msg' hold')
  · rw [(hnew msg hnow huid).1] at hnow'
    exact (List.mem_singleton.mp hnow').symm

/-- **Every event keeps everything traced to where it was minted:** what a manager re-sends it was
sent, and what a hub accepts was minted by it or by a hub before it. -/
theorem Traced.step (h : c.Traced) (hhonest : c.Honest event) (hstep : c.step event = some c') :
    c'.Traced := by
  cases event with
  | serves i k =>
      obtain rfl := Option.some.inj hstep
      refine ⟨fun k' msg hmem => ?_, fun k' fd msg hmem => ?_, h.held, h.unique⟩
      · by_cases hk : k' = k
        · subst hk
          simp only [Function.update_self] at hmem
          exact h.held i msg hmem
        · simp only [Function.update_of_ne hk] at hmem
          exact h.history k' msg hmem
      · by_cases hk : k' = k
        · subst hk
          simp only [Function.update_self] at hmem
          cases hmem
        · simp only [Function.update_of_ne hk] at hmem
          exact h.sent k' fd msg hmem
  | receives i k fd msg =>
      obtain rfl := Option.some.inj hstep
      refine ⟨h.history, h.sent, fun i' msg' hmem => ?_, h.unique⟩
      by_cases hi : i' = i
      · subst hi
        simp only [Function.update_self] at hmem
        rcases TopologyManager.mem_applyUpdate hmem with rfl | hold
        · exact h.sent k fd msg' hhonest
        · exact h.held i' msg' hold
      · simp only [Function.update_of_ne hi] at hmem
        exact h.held i' msg' hmem
  | call i k op =>
      obtain ⟨o, hop, rfl⟩ := Option.map_eq_some_iff.mp hstep
      have hadded := h.added hhonest hop
      have hold : ∀ {msg}, msg ∈ c.minted → msg ∈ c.minted ++ o.minted :=
        fun hmem => List.mem_append_left _ hmem
      refine ⟨fun k' msg hmem => ?_, fun k' fd msg hmem => ?_,
        fun i' msg hmem => hold (h.held i' msg hmem), h.minted_unique hhonest hop⟩
      · by_cases hk : k' = k
        · subst hk
          simp only [Function.update_self] at hmem
          rcases perform_mem hop hmem with hbefore | hnow
          · exact hold (h.history k' msg hbefore)
          · exact hadded msg hnow
        · simp only [Function.update_of_ne hk] at hmem
          exact hold (h.history k' msg hmem)
      · by_cases hk : k' = k
        · subst hk
          simp only [Function.update_self] at hmem
          rcases Hub.mem_observe_sent hmem with hbefore | hnow
          · exact hold (h.sent k' fd msg hbefore)
          · rcases perform_sent hop hnow with hbefore | hnow
            · exact hold (h.history k' msg hbefore)
            · exact hadded msg hnow
        · simp only [Function.update_of_ne hk] at hmem
          exact hold (h.sent k' fd msg hmem)

/-- **One call, exactly.**  A message with a uid never trips the assertions. -/
theorem Traced.assertsHold_iff (h : c.Traced) (hhonest : c.Honest (.call manager hub op))
    (hop : (c.hubs hub).server.perform op = some o) :
    c.AssertsHold (.call manager hub op) ↔ c.LeavesKnown (.call manager hub op) := by
  have hholds : c.AssertsHold (.call manager hub op) ↔
      .oldUid ∉ o.failed ∧ .oldMatch ∉ o.failed := by
    simp [AssertsHold, hop]
  rw [hholds]
  rcases perform_cases hop with ⟨fd, rfl, _, rfl⟩ | ⟨fd, msg, random, rfl, hid, rfl⟩ |
    ⟨u, failed, hupdate, _, _, hfailed⟩
  · refine iff_of_true ?_ trivial
    have honly := sendHistory_failed_only (((c.hubs hub).server.mClients.lookup fd).getD {}).seq
      (c.hubs hub).server.mHistory
    exact ⟨fun hmem => (by cases honly _ hmem), fun hmem => (by cases honly _ hmem)⟩
  · exact iff_of_true ⟨by simp, by simp⟩ fun hne => absurd hid hne
  · have hsettled : ∀ assertion, assertion ≠ .broadcastSeq →
        (assertion ∈ o.failed ↔ assertion ∈ failed) := by
      intro assertion hne
      rw [hfailed, List.mem_append]
      exact ⟨fun hor => hor.elim id fun hmem => absurd (settle_failed_only _ _ hmem) hne, Or.inl⟩
    rw [hsettled _ (by simp), hsettled _ (by simp)]
    generalize o.minted = minted at hupdate
    generalize o.accepted = accepted at hupdate
    cases hupdate with
    | redundant _ _ hseq _ => exact iff_of_true ⟨by simp, by simp⟩ fun _ hne => absurd hseq hne
    | novel _ _ hseq _ => exact iff_of_true ⟨by simp, by simp⟩ fun _ hne => absurd hseq hne
    | disconnect _ => exact iff_of_true ⟨by simp, by simp⟩ trivial
    | purge _ _ => exact iff_of_true ⟨by simp, by simp⟩ trivial
    | newest _ hid hseq hhit => simp [LeavesKnown, hid, hseq, hhit]
    | @held fd msg found random client hclient hid hseq hhit =>
        have hset := TopologyMessage.op_ne_notSet hid
        have hfound : msg.uid ≠ 0 → found.uid = msg.uid → found = msg := by
          intro huid heq
          rcases hhonest with ⟨hzero, _⟩ | ⟨_, hheld⟩
          · exact absurd hzero hseq
          · exact h.unique found (h.history hub found (mem_of_hit hhit)) msg
              (h.held manager msg hheld) heq (heq ▸ huid)
        have hequal : found.equal msg = false ↔ found ≠ msg := by
          rw [← Bool.not_eq_true, TopologyMessage.equal_iff]
          constructor
          · rintro hnot rfl
            exact hnot ⟨rfl, hset⟩
          · rintro hne ⟨heq, _⟩
            exact hne heq
        have hknown : c.LeavesKnown (.call manager hub (.data fd msg random)) ↔
            (msg.uid = 0 → found.seq = msg.seq → found.uid = 0 → found = msg) := by
          simp [LeavesKnown, hid, hseq, hhit]
        rw [hknown]
        by_cases hclash : (found.seq = msg.seq ∧ found.uid = msg.uid) ∧ found.equal msg = false
        · rw [if_pos hclash]
          obtain ⟨⟨hsameSeq, hsameUid⟩, hdiffer⟩ := hclash
          refine iff_of_false (by simp) fun hall => hequal.mp hdiffer ?_
          by_cases huid : msg.uid = 0
          · exact hall huid hsameSeq (hsameUid.trans huid)
          · exact hfound huid hsameUid
        · rw [if_neg hclash]
          refine iff_of_true ⟨by simp, by simp⟩ fun huid hsameSeq hzero => ?_
          by_contra hne
          exact hclash ⟨⟨hsameSeq, hzero.trans huid.symm⟩, hequal.mpr hne⟩

/-- **Hub transfer.**  Over any number of hubs and managers the assertions of
`AddOldMessage` hold throughout exactly when every re-sent message without a uid
is known. -/
theorem hub_transfer_iff {managers : Nat → TopologyManager} {events : List ClusterEvent}
    (hfresh : ∀ i, (managers i).mHistory = [])
    (hhonest : Along step Honest (start managers) events)
    (hrun : exec step (start managers) events = some c) :
    Along step AssertsHold (start managers) events ↔
      Along step LeavesKnown (start managers) events := by
  refine along_congr (I := Traced) ?_ ?_ (start_traced hfresh) (hhonest.and (along_isSome hrun))
  · exact fun c event c' h hguard hstep => h.step hguard.1 hstep
  · intro c event h hguard
    cases event with
    | serves i k => exact Iff.rfl
    | receives i k fd msg => exact Iff.rfl
    | call i k op =>
        have hsome : ((c.hubs k).server.perform op).isSome := by
          simpa [step] using hguard.2
        obtain ⟨o, hop⟩ := Option.isSome_iff_exists.mp hsome
        exact h.assertsHold_iff hguard.1 hop

/-- Managers of nodes 5, 6, 7 and so on. -/
def spokes (i : Nat) : TopologyManager :=
  .create (UInt64.ofNat (i + 5)) "node" "address" {}

/-- What the first hub mints for the JOIN and for the hang-up of node 5. -/
def joinAndLeave : List TopologyMessage :=
  [{ seq := 1, uid := 51, op := .nodeChange { id := 5, op := .join, name := "node" } },
    { seq := 2, op := .nodeChange { id := 5, op := .leave } }]

/-- Node 5 joins and hangs up on the first hub.  Node 6 is told and re-sends what
it was told to a second hub, which a manager without history has started. -/
def leaveResent : List ClusterEvent :=
  [ClusterEvent.call 0 0 (.connect 3),
    .call 0 0 (.data 3 { op := .nodeChange { id := 5, op := .join, name := "node" } } 51),
    .call 1 0 (.connect 4), .call 0 0 (.disconnect 3)] ++
  joinAndLeave.map (ClusterEvent.receives 1 0 4) ++
  [ClusterEvent.serves 2 1, .call 1 1 (.connect 3)] ++
  joinAndLeave.map fun msg => ClusterEvent.call 1 1 (.data 3 msg 0)

/-- The LEAVE is accepted as newest, without a uid. -/
theorem not_assertsHold_leaveResent :
    Along step Honest (start spokes) leaveResent ∧
      (exec step (start spokes) leaveResent).isSome ∧
      ¬ Along step AssertsHold (start spokes) leaveResent := by
  decide +kernel

/-- The same with a second hub that a manager has started with the history. -/
def leaveKnown : List ClusterEvent :=
  [ClusterEvent.call 0 0 (.connect 3),
    .call 0 0 (.data 3 { op := .nodeChange { id := 5, op := .join, name := "node" } } 51),
    .call 1 0 (.connect 4), .call 0 0 (.disconnect 3)] ++
  joinAndLeave.map (ClusterEvent.receives 1 0 4) ++
  [ClusterEvent.serves 1 1, .call 1 1 (.connect 3)] ++
  joinAndLeave.map fun msg => ClusterEvent.call 1 1 (.data 3 msg 0)

/-- The LEAVE that is re-sent is one that the new hub has. -/
theorem hub_transfer_iff_leaveKnown : Along step LeavesKnown (start spokes) leaveKnown := by
  have hrun : (exec step (start spokes) leaveKnown).isSome := by decide +kernel
  exact (hub_transfer_iff (fun _ => rfl) (by decide +kernel) (Option.some_get hrun).symm).mp
    (by decide +kernel)

end Cluster

end IpcPubsub
