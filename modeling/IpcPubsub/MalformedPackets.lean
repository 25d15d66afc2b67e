import IpcPubsub.HubRuns
import IpcPubsub.Reconnect
import IpcPubsub.TopologyWire

/-!
# Packets that do not parse

`ParseFromArray` returns whether it read a whole message, and leaves the fields
it decoded in the message either way.  Neither end of the topology socket looks
at the result: the hub goes on with what was decoded, and so does the manager,
which puts whatever it is given into its history.

`parse` is protobuf's parser.
-/

namespace IpcPubsub

open FiniteMap CursorLog WireFormat

namespace TopologyManager

/-- `ApplyUpdate` on the bytes of a packet. -/
def applyData (parse : List UInt8 → Bool × TopologyMessage) (m : TopologyManager)
    (data : List UInt8) : TopologyManager × List Callback :=
  m.applyUpdate (parse data).2

/-- The packet changes neither history nor nodes and calls no handler. -/
def Unaffected (parse : List UInt8 → Bool × TopologyMessage) (m : TopologyManager)
    (data : List UInt8) : Prop :=
  (m.applyData parse data).1.mHistory = m.mHistory ∧
    (m.applyData parse data).1.mNodes = m.mNodes ∧ (m.applyData parse data).2 = []

/-- **Every packet is remembered.** -/
theorem not_unaffected (parse : List UInt8 → Bool × TopologyMessage) (m : TopologyManager)
    (data : List UInt8) : ¬ m.Unaffected parse data := by
  intro h
  have hhit := LowerBound.lowerBound_le_length
    (fun lhs : TopologyMessage => decide (lhs.seq < (parse data).2.seq)) m.mHistory
  have hlength := congrArg List.length h.1
  rw [applyData, applyUpdate, List.length_insertIdx_of_le_length hhit] at hlength
  omega

end TopologyManager

namespace TopologyServer

variable {s : TopologyServer} {fd : Fd} {client : Client} {msg : TopologyMessage}

/-- The packet changes nothing in the hub and makes it send nothing. -/
def Unaffected (parse : List UInt8 → Bool × TopologyMessage) (s : TopologyServer) (fd : Fd)
    (data : List UInt8) (random : UInt64) : Prop :=
  ∀ o, s.onData (fun data => (parse data).2) fd data random = some o →
    o.server = s ∧ ∀ fd', o.sent fd' = []

/-- What the hub makes nothing of: a message that names no node; or one it has,
from a connection already taken for that node, when there is nothing to prune
and nothing to send. -/
def Ignores (s : TopologyServer) (client : Client) (msg : TopologyMessage) : Prop :=
  msg.nodeId = 0 ∨
    client.nodeId = msg.nodeId ∧
      (msg.seq = 0 → isRedundant msg client = true) ∧ (msg.seq ≠ 0 → s.hit msg ≠ none) ∧
      pruneRemoved s.mHistory = s.mHistory ∧
      ∀ fd' client', s.mClients.lookup fd' = some client' →
        ∀ old ∈ s.mHistory, old.seq ≤ client'.seq

/-- Two hubs with the same fields. -/
theorem eq_of {s t : TopologyServer} (hclients : s.mClients = t.mClients)
    (hnext : s.mNextSeq = t.mNextSeq) (hhistory : s.mHistory = t.mHistory) : s = t := by
  obtain ⟨clients, next, history⟩ := s
  obtain rfl : clients = t.mClients := hclients
  obtain rfl : next = t.mNextSeq := hnext
  obtain rfl : history = t.mHistory := hhistory
  rfl

/-- Nothing to prune and nothing to send: then pruning and broadcasting leave the hub as it is. -/
theorem settle_eq_self (hpruned : pruneRemoved s.mHistory = s.mHistory)
    (hsent : ∀ fd client, s.mClients.lookup fd = some client →
      ∀ old ∈ s.mHistory, old.seq ≤ client.seq) :
    (settle s).server = s ∧ ∀ fd, (settle s).sent fd = [] := by
  have hclients : (settle s).server.mClients = s.mClients := by
    apply Finmap.ext_lookup
    intro fd
    rw [lookup_settle, hpruned]
    cases hlookup : s.mClients.lookup fd with
    | none => rfl
    | some client => rw [Option.map_some, catchUp_of_le (hsent fd client hlookup)]
  refine ⟨eq_of hclients rfl hpruned, fun fd => ?_⟩
  · rw [settle_sent, hpruned]
    cases hlookup : s.mClients.lookup fd with
    | none => rfl
    | some client =>
        exact congrArg Prod.fst (catchUp_of_le (hsent fd client hlookup))

/-- Inserting what is there. -/
theorem insert_lookup_self (hclient : s.mClients.lookup fd = some client) :
    s.mClients.insert fd client = s.mClients := by
  apply Finmap.ext_lookup
  intro fd'
  by_cases hfd : fd' = fd
  · subst hfd
    rw [Finmap.lookup_insert, hclient]
  · rw [Finmap.lookup_insert_of_ne _ hfd]

/-- A message that is dropped or held changes nothing exactly when it is one the
hub makes nothing of. -/
theorem settle_renamed_iff (hclient : s.mClients.lookup fd = some client) :
    ((settle { s with
          mClients := s.mClients.insert fd { client with nodeId := msg.nodeId } }).server = s ∧
        ∀ fd', (settle { s with
          mClients := s.mClients.insert fd { client with nodeId := msg.nodeId } }).sent fd' = []) ↔
      client.nodeId = msg.nodeId ∧ pruneRemoved s.mHistory = s.mHistory ∧
        ∀ fd' client', s.mClients.lookup fd' = some client' →
          ∀ old ∈ s.mHistory, old.seq ≤ client'.seq := by
  constructor
  · rintro ⟨hserver, hsent⟩
    have hpruned : pruneRemoved s.mHistory = s.mHistory :=
      congrArg TopologyServer.mHistory hserver
    refine ⟨?_, hpruned, ?_⟩
    · have hlookup := congrArg (fun s : TopologyServer => s.mClients.lookup fd) hserver
      simp only [lookup_settle, Finmap.lookup_insert, hclient, Option.map_some,
        Option.some.injEq] at hlookup
      exact (congrArg Client.nodeId hlookup).symm
    · intro fd' client' hlookup' old hold
      have hnone := hsent fd'
      rw [settle_sent] at hnone
      by_cases hfd : fd' = fd
      · subst hfd
        obtain rfl := Option.some.inj (hclient.symm.trans hlookup')
        simp only [Finmap.lookup_insert, hpruned] at hnone
        exact le_mark_of_catchUp_nil hnone hold
      · simp only [Finmap.lookup_insert_of_ne _ hfd, hlookup', hpruned] at hnone
        exact le_mark_of_catchUp_nil hnone hold
  · rintro ⟨hnode, hpruned, hsent⟩
    have hsame : ({ client with nodeId := msg.nodeId } : Client) = client := by
      rw [← hnode]
    rw [hsame, insert_lookup_self hclient]
    exact settle_eq_self hpruned hsent

/-- A message that is minted or accepted always shows, in `mNextSeq` or in the history of its
connection. -/
theorem Updates.settle_ne {u : TopologyServer} {minted accepted : List TopologyMessage}
    {failed : List Assertion} {random : UInt64}
    (h : Updates s (.data fd msg random) u minted accepted failed)
    (hadded : minted ++ accepted ≠ []) : (settle u).server ≠ s := by
  intro hserver
  cases h with
  | redundant _ _ _ _ => exact hadded rfl
  | held _ _ _ _ => exact hadded rfl
  | novel _ _ _ _ =>
      have hnext : s.mNextSeq + 1 = s.mNextSeq := congrArg TopologyServer.mNextSeq hserver
      simp at hnext
  | @newest _ _ _ client hclient _ _ _ =>
      have hlookup := congrArg (fun s : TopologyServer => s.mClients.lookup fd) hserver
      simp only [lookup_settle, Finmap.lookup_insert, hclient, Option.map_some,
        Option.some.injEq] at hlookup
      have hhistory := congrArg (fun client : Client => client.history.length) hlookup
      simp at hhistory

/-- **One update**, one case for each way the hub can take a message. -/
theorem Updates.unaffected_iff {u : TopologyServer} {minted accepted : List TopologyMessage}
    {failed : List Assertion} {random : UInt64}
    (h : Updates s (.data fd msg random) u minted accepted failed)
    (hclient : s.mClients.lookup fd = some client) (hid : msg.nodeId ≠ 0) :
    ((settle u).server = s ∧ ∀ fd', (settle u).sent fd' = []) ↔ s.Ignores client msg := by
  have hshows : minted ++ accepted ≠ [] →
      ¬ ((settle u).server = s ∧ ∀ fd', (settle u).sent fd' = []) :=
    fun hadded hsame => h.settle_ne hadded hsame.1
  rw [Ignores, or_iff_right hid]
  cases h with
  | redundant hclient' _ hseq hredundant =>
      obtain rfl := Option.some.inj (hclient.symm.trans hclient')
      rw [settle_renamed_iff hclient]
      simp [hseq, hredundant]
  | held hclient' _ hseq hhit =>
      obtain rfl := Option.some.inj (hclient.symm.trans hclient')
      rw [settle_renamed_iff hclient]
      simp [hseq, hhit]
  | novel hclient' _ hseq hredundant =>
      obtain rfl := Option.some.inj (hclient.symm.trans hclient')
      refine ⟨fun hsame => absurd hsame (hshows (List.cons_ne_nil _ _)), fun hignores => ?_⟩
      rw [hignores.2.1 hseq] at hredundant
      cases hredundant
  | newest hclient' _ hseq hhit =>
      refine ⟨fun hsame => absurd hsame (hshows (List.cons_ne_nil _ _)), fun hignores => ?_⟩
      exact absurd hhit (hignores.2.2.1 hseq)

/-- **What the hub does with a packet, exactly.**  Whether it parsed or not. -/
theorem unaffected_iff {parse : List UInt8 → Bool × TopologyMessage} {data : List UInt8}
    {random : UInt64} (hclient : s.mClients.lookup fd = some client) (hdata : data ≠ []) :
    s.Unaffected parse fd data random ↔ s.Ignores client (parse data).2 := by
  have hlength : data.length ≠ 0 := fun h => hdata (List.length_eq_zero_iff.mp h)
  have hcall : s.onData (fun data => (parse data).2) fd data random =
      s.perform (.data fd (parse data).2 random) := by
    rw [onData, if_neg hlength]
    rfl
  rw [Unaffected, hcall]
  obtain ⟨o, ho⟩ : ∃ o, s.perform (.data fd (parse data).2 random) = some o := by
    simp only [perform, onMessage, hclient]
    split <;> exact ⟨_, rfl⟩
  have hone : (∀ o', s.perform (.data fd (parse data).2 random) = some o' →
      o'.server = s ∧ ∀ fd', o'.sent fd' = []) ↔ o.server = s ∧ ∀ fd', o.sent fd' = [] := by
    refine ⟨fun h => h o ho, fun h o' ho' => ?_⟩
    obtain rfl := Option.some.inj (ho.symm.trans ho')
    exact h
  rw [hone]
  by_cases hid : (parse data).2.nodeId = 0
  · have hnothing : s.perform (.data fd (parse data).2 random) = some { server := s } := by
      simp [perform, onMessage, hid]
    obtain rfl := Option.some.inj (hnothing.symm.trans ho)
    exact ⟨fun _ => Or.inl hid, fun _ => ⟨rfl, fun _ => rfl⟩⟩
  · rcases perform_cases ho with ⟨_, heq, _, _⟩ | ⟨_, _, _, heq, hzero, _⟩ |
      ⟨u, failed, hupdate, hserver, hsent, _⟩
    · cases heq
    · cases heq
      exact absurd hzero hid
    · rw [hserver, hsent]
      exact hupdate.unaffected_iff hclient hid

end TopologyServer

/-- **Malformed packets.**  No packet that does not parse leaves both ends
alone: the manager always puts what was decoded into its history, and the hub is
unaffected exactly when it would make nothing of the message decoded so far. -/
theorem malformed_packet (parse : List UInt8 → Bool × TopologyMessage)
    (hempty : parse [] = (true, {})) (s : TopologyServer) (fd : Fd) (client : Client)
    (hclient : s.mClients.lookup fd = some client) (m : TopologyManager) (data : List UInt8)
    (random : UInt64) (hmalformed : (parse data).1 = false) :
    ¬ (s.Unaffected parse fd data random ∧ m.Unaffected parse data) ∧
      (s.Unaffected parse fd data random ↔ s.Ignores client (parse data).2) := by
  have hdata : data ≠ [] := by
    rintro rfl
    rw [hempty] at hmalformed
    cases hmalformed
  exact ⟨fun h => m.not_unaffected parse data h.2, TopologyServer.unaffected_iff hclient hdata⟩

/-- A JOIN of node 5 with the tag of a sequence number that does not follow. -/
def cutJoin : List UInt8 :=
  [0x1a, 0x04, 0x08, 0x05, 0x10, 0x01, 0x08]

/-- What the reader of tagged records leaves in the message: it fails, and has switched the
oneof before. -/
theorem parse_cutJoin :
    TopologyMessage.parse cutJoin = (false, { op := .nodeChange { id := 5, op := .join } }) := by
  decide +kernel

/-- A hub with one connection. -/
def oneClient : TopologyServer where
  mClients := (∅ : UnorderedMap Fd Client).insert 3 {}

/-- The hub acts on the part it could read. -/
theorem malformed_packet_cutJoin :
    ¬ (oneClient.Unaffected TopologyMessage.parse 3 cutJoin 9 ∧
        TopologyManager.Unaffected TopologyMessage.parse { mNodeId := 1 } cutJoin) ∧
      (oneClient.Unaffected TopologyMessage.parse 3 cutJoin 9 ↔
        oneClient.Ignores {} (TopologyMessage.parse cutJoin).2) :=
  malformed_packet TopologyMessage.parse rfl oneClient 3 {} (Finmap.lookup_insert _)
    { mNodeId := 1 } cutJoin 9 (by rw [parse_cutJoin])

/-- The hub mints the JOIN, and the manager takes node 5 for present. -/
theorem cutJoin_effects :
    (TopologyMessage.parse cutJoin).1 = false ∧
    (∃ o, oneClient.onData (fun data => (TopologyMessage.parse data).2) 3 cutJoin 9 = some o ∧
      o.minted = [{ seq := 1, uid := 9, op := .nodeChange { id := 5, op := .join } }]) ∧
    (TopologyManager.applyData TopologyMessage.parse { mNodeId := 1 } cutJoin).2 =
      [.onJoin { id := 5, op := .join }] := by
  refine ⟨by decide +kernel, ⟨_, (Option.some_get (by decide +kernel)).symm, ?_⟩, ?_⟩
  · decide +kernel
  · decide +kernel

end IpcPubsub
