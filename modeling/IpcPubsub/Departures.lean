import IpcPubsub.HubRuns

/-!
# Who is said to have left

The hub takes a connection for the node that its last packet named, and writes
that node's LEAVE when the connection closes or, in the purge, when no
connection is taken for it.  A client that introduces itself first re-sends the
history it holds, about any nodes, and names itself only afterwards.

So a hang-up or the purge in the middle of an introduction may declare a node
gone whose own connection is open.  `no_false_departure_iff` says exactly when:
a closing connection must not have named, last of all, the node of another open
connection, and at the purge the node of every open connection must be inactive
or the last one named on some connection.
-/

namespace IpcPubsub

open FiniteMap GuardedRuns TopologyServer

/-- A server, the node each open connection belongs to, and the node named last
on it. -/
structure Roster where
  server : TopologyServer
  owner : Fd → UInt64 := fun _ => 0
  named : Fd → UInt64 := fun _ => 0
  /-- The connection has sent a message of its own. -/
  introduced : Fd → Bool := fun _ => false
  purged : Bool := false

/-- A node opens a connection, or the hub is called by one that is open. -/
inductive RosterEvent
  | opens (node : UInt64) (fd : Fd)
  | call (op : HubOp)

namespace Roster

def start (digest : List TopologyMessage) : Roster where
  server := .create digest

def step (roster : Roster) : RosterEvent → Option Roster
  | .opens node fd =>
      (roster.server.step (.connect fd)).map fun s => { roster with
        server := s
        owner := fun fd' => if fd' = fd then node else roster.owner fd'
        named := fun fd' => if fd' = fd then 0 else roster.named fd'
        introduced := fun fd' => if fd' = fd then false else roster.introduced fd' }
  | .call (.connect _) => none
  | .call (.data fd msg random) =>
      (roster.server.step (.data fd msg random)).map fun s => { roster with
        server := s
        named := fun fd' => (HubOp.data fd msg random).naming fd' (roster.named fd')
        introduced := fun fd' => roster.introduced fd' || (decide (fd' = fd) && msg.seq == 0) }
  | .call (.disconnect fd) =>
      (roster.server.step (.disconnect fd)).map fun s => { roster with server := s }
  | .call (.purge order) =>
      (roster.server.step (.purge order)).map fun s => { roster with server := s, purged := true }

/-- What `IntroduceOurselves` and the purge timer do: history first, then
messages of the sender's own, and one purge. -/
def Introduces (roster : Roster) : RosterEvent → Prop
  | .call (.data fd msg _) =>
      msg.seq ≠ 0 ∧ roster.introduced fd = false ∨ msg.seq = 0 ∧ msg.nodeId = roster.owner fd
  | .call (.purge _) => roster.purged = false
  | _ => True

instance (roster : Roster) : DecidablePred roster.Introduces
  | .opens _ _ => isTrue trivial
  | .call (.data _ _ _) => inferInstanceAs (Decidable (_ ∧ _ ∨ _ ∧ _))
  | .call (.purge _) => inferInstanceAs (Decidable (_ = _))
  | .call (.connect _) => isTrue trivial
  | .call (.disconnect _) => isTrue trivial

/-- Every LEAVE that a hang-up or the purge mints is of a node to which no open
connection belongs. -/
def NoFalseDeparture (roster : Roster) : RosterEvent → Prop
  | .call (.data _ _ _) => True
  | .call op => ∀ o ∈ roster.server.perform op, ∀ msg ∈ o.minted,
      ∀ fd ∈ (roster.server.staying op).keys, ¬ msg.LeaveOf (roster.owner fd)
  | _ => True

instance (roster : Roster) : DecidablePred roster.NoFalseDeparture
  | .opens _ _ => isTrue trivial
  | .call (.data _ _ _) => isTrue trivial
  | .call (.purge order) => inferInstanceAs (Decidable (∀ o ∈ roster.server.perform (.purge order),
      ∀ msg ∈ o.minted, ∀ fd ∈ (roster.server.staying (.purge order)).keys, _))
  | .call (.connect fd) => inferInstanceAs (Decidable (∀ o ∈ roster.server.perform (.connect fd),
      ∀ msg ∈ o.minted, ∀ fd' ∈ (roster.server.staying (.connect fd)).keys, _))
  | .call (.disconnect fd) =>
      inferInstanceAs (Decidable (∀ o ∈ roster.server.perform (.disconnect fd),
        ∀ msg ∈ o.minted, ∀ fd' ∈ (roster.server.staying (.disconnect fd)).keys, _))

/-- A connection that closes named last no node of another open connection; at
the purge the node of every open connection is inactive, or the last one named
on some connection. -/
def NamedRightly (roster : Roster) : RosterEvent → Prop
  | .call (.disconnect fd) =>
      ∀ fd' ∈ roster.server.mClients.keys, fd' ≠ fd → roster.owner fd' ≠ roster.named fd
  | .call (.purge _) =>
      ∀ fd ∈ roster.server.mClients.keys,
        roster.owner fd ∈ historicallyActive roster.server.mHistory →
        ∃ fd' ∈ roster.server.mClients.keys, roster.named fd' = roster.owner fd
  | _ => True

/-- The hub takes every connection for the node named last on it. -/
def Taken (roster : Roster) : Prop :=
  ∀ fd client, roster.server.mClients.lookup fd = some client →
    client.nodeId = roster.named fd

variable {roster roster' : Roster} {event : RosterEvent}

/-- No client is connected to a hub that has just been started. -/
theorem start_taken (digest : List TopologyMessage) : (start digest).Taken := by
  intro fd client hclient
  simp [start, create] at hclient

/-- Every call keeps track of the node named last on each connection, which is the node the hub
takes the connection for. -/
theorem Taken.step (h : roster.Taken) (hstep : roster.step event = some roster') :
    roster'.Taken := by
  have hkeep : ∀ {op : HubOp} {s : TopologyServer}, roster.server.step op = some s →
      ∀ {fd : Fd} {client' : Client}, op ≠ .connect fd → s.mClients.lookup fd = some client' →
      client'.nodeId = op.naming fd (roster.named fd) := by
    intro op s hop fd client' hconnect hclient'
    obtain ⟨o, hperform, rfl⟩ := step_eq_some.mp hop
    rcases perform_client hperform hclient' with ⟨heq, _⟩ | ⟨client, hclient, _, hnode, _⟩
    · exact absurd heq hconnect
    · rw [hnode, h fd client (lookup_of_staying hclient)]
  cases event with
  | opens node fd =>
      obtain ⟨s, hs, rfl⟩ := Option.map_eq_some_iff.mp hstep
      intro fd' client' hclient'
      by_cases hne : fd' = fd
      · subst hne
        obtain ⟨o, hop, rfl⟩ := step_eq_some.mp hs
        rcases perform_client hop hclient' with ⟨_, hzero, _⟩ | ⟨_, _, heq, _⟩
        · simp [hzero]
        · exact absurd rfl heq
      · have hconnect : HubOp.connect fd ≠ .connect fd' := by simp [Ne.symm hne]
        simpa [HubOp.naming, hne] using hkeep hs hconnect hclient'
  | call op =>
      cases op with
      | connect fd => cases hstep
      | data fd msg random =>
          obtain ⟨s, hs, rfl⟩ := Option.map_eq_some_iff.mp hstep
          exact fun fd' client' hclient' => hkeep hs (by simp) hclient'
      | disconnect fd =>
          obtain ⟨s, hs, rfl⟩ := Option.map_eq_some_iff.mp hstep
          exact fun fd' client' hclient' => hkeep hs (by simp) hclient'
      | purge order =>
          obtain ⟨s, hs, rfl⟩ := Option.map_eq_some_iff.mp hstep
          exact fun fd' client' hclient' => hkeep hs (by simp) hclient'

/-- **One hang-up** makes nobody leave who is still connected exactly when no other open
connection is of the node named last on this one. -/
theorem Taken.disconnect_iff (h : roster.Taken) {fd : Fd} {o : Outcome}
    (hop : roster.server.perform (.disconnect fd) = some o) :
    roster.NoFalseDeparture (.call (.disconnect fd)) ↔
      roster.NamedRightly (.call (.disconnect fd)) := by
  have hminted : ∃ client, roster.server.mClients.lookup fd = some client ∧
      o.minted = [{ leaveMessage client.nodeId with seq := roster.server.mNextSeq }] := by
    simp only [perform, onDisconnect] at hop
    split at hop
    · cases hop
    · rename_i client hclient
      exact ⟨client, hclient, Option.some.inj hop ▸ rfl⟩
  obtain ⟨client, hclient, hmsg⟩ := hminted
  have hleave : ∀ id, TopologyMessage.LeaveOf id
      { leaveMessage client.nodeId with seq := roster.server.mNextSeq } ↔
        id = roster.named fd := by
    intro id
    simp [TopologyMessage.LeaveOf, leaveMessage, h fd client hclient, eq_comm]
  simp only [NoFalseDeparture, NamedRightly, hop, Option.mem_def, Option.some.injEq,
    forall_eq', hmsg, List.mem_singleton, forall_eq, hleave, staying, Finmap.mem_keys,
    Finmap.mem_erase, and_imp]
  exact ⟨fun hall fd' hmem hne => hall fd' hne hmem, fun hall fd' hne hmem => hall fd' hmem hne⟩

/-- **The purge** makes nobody leave who is still connected exactly when every active node with a
connection is the one named last on some connection. -/
theorem Taken.purge_iff (h : roster.Taken) {order : List UInt64} {o : Outcome}
    (hop : roster.server.perform (.purge order) = some o) :
    roster.NoFalseDeparture (.call (.purge order)) ↔
      roster.NamedRightly (.call (.purge order)) := by
  have horder : order.toFinset = historicallyActive roster.server.mHistory ∧
      o.minted = (roster.server.mintLeaves
        (order.filter fun id => id ∉ roster.server.connected)).2 := by
    simp only [perform] at hop
    split at hop
    · rename_i horder
      exact ⟨horder.2, Option.some.inj hop ▸ rfl⟩
    · cases hop
  have hconnected : ∀ id, id ∈ roster.server.connected ↔
      ∃ fd ∈ roster.server.mClients.keys, roster.named fd = id := by
    intro id
    rw [connected, mem_image]
    constructor
    · rintro ⟨fd, client, hclient, rfl⟩
      exact ⟨fd, Finmap.mem_keys.mpr (Finmap.mem_iff.mpr ⟨client, hclient⟩),
        (h fd client hclient).symm⟩
    · rintro ⟨fd, hfd, rfl⟩
      obtain ⟨client, hclient⟩ := Finmap.mem_iff.mp (Finmap.mem_keys.mp hfd)
      exact ⟨fd, client, hclient, h fd client hclient⟩
  have hpurged : ∀ id, (∃ msg ∈ o.minted, msg.LeaveOf id) ↔
      id ∈ historicallyActive roster.server.mHistory ∧ id ∉ roster.server.connected := by
    intro id
    rw [horder.2, exists_leaveOf_mintLeaves, List.mem_filter, ← horder.1, List.mem_toFinset]
    simp
  simp only [NoFalseDeparture, NamedRightly, hop, Option.mem_def, Option.some.injEq,
    forall_eq', staying]
  constructor
  · intro hall fd hfd hactive
    rw [← hconnected]
    by_contra hnot
    obtain ⟨msg, hmem, hleave⟩ := (hpurged _).mpr ⟨hactive, hnot⟩
    exact hall msg hmem fd hfd hleave
  · intro hall msg hmem fd hfd hleave
    obtain ⟨hactive, hnot⟩ := (hpurged _).mp ⟨msg, hmem, hleave⟩
    exact hnot ((hconnected _).mpr (hall fd hfd hactive))

/-- **No false departure.**  In every run, the hub declares gone only nodes to
which no open connection belongs exactly when at every hang-up and at the purge
the connections named their nodes rightly. -/
theorem no_false_departure_iff {digest : List TopologyMessage} {events : List RosterEvent}
    (hrun : exec step (start digest) events = some roster) :
    Along step NoFalseDeparture (start digest) events ↔
      Along step NamedRightly (start digest) events := by
  refine along_congr (I := Taken) ?_ ?_ (start_taken digest) (along_isSome hrun)
  · exact fun roster event roster' h _ hstep => h.step hstep
  · intro roster event h hsome
    cases event with
    | opens node fd => exact Iff.rfl
    | call op =>
        cases op with
        | connect fd => simp [step] at hsome
        | data fd msg random => exact Iff.rfl
        | disconnect fd =>
            obtain ⟨o, hop⟩ := Option.isSome_iff_exists.mp
              (by simpa [step, TopologyServer.step] using hsome)
            exact h.disconnect_iff hop
        | purge order =>
            obtain ⟨o, hop⟩ := Option.isSome_iff_exists.mp
              (by simpa [step, TopologyServer.step] using hsome)
            exact h.purge_iff hop

/-- The JOIN of node 5 as the hub minted it. -/
def mintedJoin : TopologyMessage where
  seq := 1
  uid := 51
  op := .nodeChange { id := 5, op := .join, name := "five" }

/-- Node 5 joins.  Node 6 connects, is sent the JOIN, re-sends it and hangs up
before it has named itself. -/
def hangsUpIntroducing : List RosterEvent :=
  [.opens 5 3, .call (.data 3 { op := .nodeChange { id := 5, op := .join, name := "five" } } 51),
    .opens 6 4, .call (.data 4 mintedJoin 0), .call (.disconnect 4)]

/-- The LEAVE of node 5 is minted while its connection is open. -/
theorem false_departure_hangsUpIntroducing :
    Along step Introduces (start []) hangsUpIntroducing ∧
      (exec step (start []) hangsUpIntroducing).isSome ∧
      ¬ Along step NoFalseDeparture (start []) hangsUpIntroducing := by
  decide +kernel

/-- Node 6 names itself before it hangs up, and the purge comes after that. -/
def hangsUpIntroduced : List RosterEvent :=
  [.opens 5 3, .call (.data 3 { op := .nodeChange { id := 5, op := .join, name := "five" } } 51),
    .opens 6 4, .call (.data 4 mintedJoin 0),
    .call (.data 4 { op := .nodeChange { id := 6, op := .join, name := "six" } } 61),
    .call (.purge [5, 6]), .call (.disconnect 4)]

/-- The client hangs up after its own JOIN. -/
theorem no_false_departure_iff_hangsUpIntroduced :
    Along step NamedRightly (start []) hangsUpIntroduced := by
  have hrun : (exec step (start []) hangsUpIntroduced).isSome := by decide +kernel
  exact (no_false_departure_iff (Option.some_get hrun).symm).mp (by decide +kernel)

end Roster

end IpcPubsub
