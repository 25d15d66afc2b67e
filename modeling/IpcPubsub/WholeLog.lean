import IpcPubsub.HubRuns

/-!
# Pruning at once

`PruneRemoved` runs at the end of every call but `OnConnect`, over what the calls before have
left.  A message that is gone does not come back, and the nodes that have left are those
that have left at any time.  So it does not matter when it runs: the history is what
is left when all that was ever recorded is pruned at once (`history_pruned_once`), and
that is what a client is sent when it connects.
-/

namespace IpcPubsub

open FiniteMap GuardedRuns

namespace TopologyServer

/-- What was pruned before more came needs not be pruned before: no LEAVE is pruned, so the
departed nodes are the same. -/
theorem pruneRemoved_append (log more : List TopologyMessage) :
    pruneRemoved (pruneRemoved log ++ more) = pruneRemoved (log ++ more) := by
  have hleft : leftNodes (pruneRemoved log ++ more) = leftNodes (log ++ more) := by
    rw [leftNodes_append, leftNodes_append, leftNodes_pruneRemoved]
  have hmonotone : leftNodes log ⊆ leftNodes (log ++ more) := by
    rw [leftNodes_append]
    exact Finset.subset_union_left
  have hpruned : (pruneRemoved log).filter (keeps (leftNodes (log ++ more))) =
      log.filter (keeps (leftNodes (log ++ more))) := by
    rw [pruneRemoved, List.filter_filter]
    refine List.filter_congr fun msg _ => ?_
    cases hkept : keeps (leftNodes (log ++ more)) msg with
    | false => rfl
    | true => rw [keeps_anti hmonotone hkept, Bool.and_self]
  rw [pruneRemoved, hleft, List.filter_append, hpruned, ← List.filter_append, ← pruneRemoved]

section Perform

variable {s : TopologyServer} {op : HubOp} {o : Outcome} {log : List TopologyMessage}

/-- **One call**, when what was recorded has been pruned. -/
theorem perform_history_pruned (h : s.mHistory = pruneRemoved log) (hop : s.perform op = some o) :
    o.server.mHistory = pruneRemoved (log ++ o.added) := by
  rw [perform_incoming hop]
  rcases perform_mHistory hop with ⟨hnone, hhistory⟩ | hhistory
  · rw [hhistory, h, hnone, List.append_nil]
  · rw [hhistory, h, pruneRemoved_append]

/-- One call, when nothing has been pruned yet. -/
theorem perform_history_unpruned (h : s.mHistory = log) (hop : s.perform op = some o) :
    o.added = [] ∧ o.server.mHistory = log ∨ o.server.mHistory = pruneRemoved (log ++ o.added) := by
  rw [perform_incoming hop]
  rcases perform_mHistory hop with ⟨hnone, hhistory⟩ | hhistory
  · exact .inl ⟨hnone, hhistory.trans h⟩
  · exact .inr (h ▸ hhistory)

end Perform

/-- All that the calls of a run record, in order. -/
def recorded (s : TopologyServer) : List HubOp → List TopologyMessage
  | [] => []
  | op :: ops => (s.perform op).elim [] fun o => o.added ++ o.server.recorded ops

/-- A run records what its first call does and what the rest does after it. -/
theorem recorded_cons {s : TopologyServer} {op : HubOp} {o : Outcome}
    (hop : s.perform op = some o) (ops : List HubOp) :
    s.recorded (op :: ops) = o.added ++ o.server.recorded ops := by
  rw [recorded, hop]
  rfl

/-- The rest of a run, once something has been pruned. -/
theorem exec_pruned {s s' : TopologyServer} {ops : List HubOp} {log : List TopologyMessage}
    (h : s.mHistory = pruneRemoved log) (hrun : exec step s ops = some s') :
    s'.mHistory = pruneRemoved (log ++ s.recorded ops) := by
  induction ops generalizing s log with
  | nil =>
      obtain rfl := Option.some.inj hrun
      rw [recorded, List.append_nil, h]
  | cons op ops ih =>
      obtain ⟨s₁, hstep, hrest⟩ := Option.bind_eq_some_iff.mp hrun
      obtain ⟨o, hop, rfl⟩ := step_eq_some.mp hstep
      rw [recorded_cons hop, ← List.append_assoc]
      exact ih (perform_history_pruned h hop) hrest

/-- A run from a history that has not been pruned: it stays as it is up to the first call that
records or prunes, and from there on `exec_pruned` applies. -/
theorem exec_unpruned {s s' : TopologyServer} {ops : List HubOp} {log : List TopologyMessage}
    (h : s.mHistory = log) (hrun : exec step s ops = some s') :
    s'.mHistory = pruneRemoved (log ++ s.recorded ops) ∨
      s.recorded ops = [] ∧ s'.mHistory = log := by
  induction ops generalizing s with
  | nil =>
      obtain rfl := Option.some.inj hrun
      exact .inr ⟨rfl, h⟩
  | cons op ops ih =>
      obtain ⟨s₁, hstep, hrest⟩ := Option.bind_eq_some_iff.mp hrun
      obtain ⟨o, hop, rfl⟩ := step_eq_some.mp hstep
      rw [recorded_cons hop]
      rcases perform_history_unpruned h hop with ⟨hnone, hsame⟩ | hpruned
      · rw [hnone, List.nil_append]
        exact ih hsame hrest
      · left
        rw [← List.append_assoc]
        exact exec_pruned hpruned hrest

/-- **Pruned at once.**  For every digest and every run, the history of the hub is what is left
when the digest and all that was recorded since are pruned together, or still the digest,
when nothing has been recorded.  A client that connects then is sent this history, message
for message, and nobody else is sent anything. -/
theorem history_pruned_once {digest : List TopologyMessage} {ops : List HubOp}
    {s : TopologyServer} (hrun : exec step (create digest) ops = some s) :
    (s.mHistory = pruneRemoved (digest ++ (create digest).recorded ops) ∨
      (create digest).recorded ops = [] ∧ s.mHistory = digest) ∧
    ∀ fd fd', (s.onConnect fd).sent fd' = if fd' = fd then s.mHistory else [] :=
  ⟨exec_unpruned rfl hrun, fun _ _ => rfl⟩

/-- A node of the digest leaves after another has joined. -/
def joinsAndLeaves : List HubOp :=
  [.connect 5, .data 5 { op := .nodeChange { id := 2, op := .join } } 41, .disconnect 5]

/-- Both have left something to keep. -/
theorem history_pruned_once_joinsAndLeaves :
    ∃ s, exec step (create [{ seq := 1, uid := 7, op := .nodeChange { id := 3, op := .join } }])
        joinsAndLeaves = some s ∧
      s.mHistory.length = 2 := by
  obtain ⟨s, hs⟩ := Option.isSome_iff_exists.mp (show (exec step
    (create [{ seq := 1, uid := 7, op := .nodeChange { id := 3, op := .join } }])
      joinsAndLeaves).isSome by decide +kernel)
  refine ⟨s, hs, ?_⟩
  rcases (history_pruned_once hs).1 with hpruned | ⟨hnone, _⟩
  · rw [hpruned]
    decide +kernel
  · exact absurd hnone (by decide +kernel)

end TopologyServer

end IpcPubsub
