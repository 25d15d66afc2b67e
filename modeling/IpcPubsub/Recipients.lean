import IpcPubsub.Addressing
import IpcPubsub.DataPlane

/-!
# Whom a datagram reaches

A datagram is sent to an address, and the address was rebuilt from a JOIN.  Where the JOINs
are those of nodes as they were created, and the numbers that `Create` draws are new,
nothing can go to the wrong node: the path of a node is in its address, and no other node
has that path.  It is addressed to a socket as long as its node has not gone, and if the rest
of the local `sockaddr_un` in `Create` was zero (`right_recipient`).  Whether the socket takes
it is another matter: `sendto` fails for a datagram that is too long.
-/

namespace IpcPubsub

open FiniteMap GuardedRuns

namespace DataNode

variable {γ : Type}

def nodeId (n : DataNode γ) : UInt64 := n.node.mTopologyManager.mNodeId

/-- The data path a node announces. -/
def path (n : DataNode γ) : String := n.node.mTopologyManager.mAddress

/-- Behind the path, `Create` has found zeros only. -/
def Clear (n : DataNode γ) : Prop := ∀ byte ∈ n.address.sunPath.drop 18, byte = 0

/-- What a node was created with. -/
structure Same (n n' : DataNode γ) : Prop where
  nodeId : n'.nodeId = n.nodeId
  path : n'.path = n.path
  address : n'.address = n.address

/-- A node is bound to its path, a zero and what was there before. -/
structure Bound (n : DataNode γ) : Prop where
  length : n.path.toUTF8.toList.length = 17
  address : ∃ rest, rest.length = 90 ∧
    n.address = { sunFamily := afUnix, sunPath := n.path.toUTF8.toList ++ 0 :: rest }

end DataNode

namespace DataPlane

variable {γ : Type}

/-- A JOIN is that of a node as it was created. -/
def Introduces (s : DataPlane γ) (msg : TopologyMessage) : Prop :=
  match msg.op with
  | .nodeChange change =>
      change.op = .join → ∃ r ∈ s.nodes, r.nodeId = change.id ∧ r.path = change.address
  | _ => True

/-- The numbers drawn are new, and the JOINs are those of nodes. -/
def Honest (s : DataPlane γ) : DataEvent γ → Prop
  | .create _ nodeId random name =>
      name.WellFormed ∧ ∀ r ∈ s.nodes, r.nodeId ≠ nodeId ∧ r.path ≠ dataPath random
  | .node _ (.update msg) => s.Introduces msg
  | _ => True

instance (s : DataPlane γ) : ∀ msg, Decidable (s.Introduces msg)
  | { op := .nodeChange change, .. } =>
      inferInstanceAs (Decidable
        (change.op = .join → ∃ r ∈ s.nodes, r.nodeId = change.id ∧ r.path = change.address))
  | { op := .topicChange _, .. } => isTrue trivial
  | { op := .notSet, .. } => isTrue trivial

instance (s : DataPlane γ) : ∀ event, Decidable (s.Honest event)
  | .create _ nodeId random name =>
      inferInstanceAs (Decidable (name.sunPath.length = 108 ∧
        ∀ r ∈ s.nodes, r.nodeId ≠ nodeId ∧ r.path ≠ dataPath random))
  | .node _ (.update msg) => inferInstanceAs (Decidable (s.Introduces msg))
  | .node _ (.publish ..) => isTrue trivial
  | .node _ .send => isTrue trivial
  | .node _ .refuse => isTrue trivial
  | .node _ .read => isTrue trivial
  | .node _ .lookUp => isTrue trivial
  | .node _ (.ask ..) => isTrue trivial
  | .node _ (.answer _) => isTrue trivial
  | .node _ .resume => isTrue trivial
  | .node _ .finish => isTrue trivial
  | .node _ .stop => isTrue trivial
  | .node _ (.subscribe ..) => isTrue trivial
  | .node _ .depart => isTrue trivial

/-- What is known of one node and what it sends. -/
structure Informed (s : DataPlane γ) (n : DataNode γ) : Prop where
  bound : n.Bound
  routed : ∃ log, n.node.Routed log ∧ ∀ msg ∈ log, s.Introduces msg
  sending : ∀ datagram ∈ n.sending,
    ∃ r ∈ s.nodes, r.nodeId = datagram.node ∧ datagram.address = .ofPath r.path
  sent : ∀ call ∈ n.sent, ∀ j, call.2 = some j →
    ∃ r, s.nodes[j]? = some r ∧ r.nodeId = call.1.node

structure Introduced (s : DataPlane γ) : Prop where
  informed : ∀ n ∈ s.nodes, s.Informed n
  apart : ∀ (j k : Nat) (r r' : DataNode γ), s.nodes[j]? = some r → s.nodes[k]? = some r' →
    r.nodeId = r'.nodeId ∨ r.path = r'.path → j = k

section Steps

variable {codec : MetadataCodec} {limit : Nat} {s s' : DataPlane γ} {event : DataEvent γ}

/-- The handlers leave a node its id and its path, whatever they make of the table. -/
theorem applyUpdate_same {node node' : IPCNode} {msg : TopologyMessage}
    (h : node.applyUpdate msg = some node') :
    node'.mTopologyManager.mNodeId = node.mTopologyManager.mNodeId ∧
      node'.mTopologyManager.mAddress = node.mTopologyManager.mAddress := by
  have hhandle : ∀ (calls : List Callback) (node node' : IPCNode),
      calls.foldlM IPCNode.handle node = some node' →
        node'.mTopologyManager = node.mTopologyManager := by
    intro calls
    induction calls with
    | nil =>
        intro node node' h
        obtain rfl : node = node' := by simpa using h
        rfl
    | cons call calls ih =>
        intro node node' h
        rw [List.foldlM_cons] at h
        obtain ⟨next, hnext, hrest⟩ := Option.bind_eq_some_iff.mp h
        rw [ih next node' hrest]
        cases call with
        | onJoin change =>
            obtain ⟨_, _, rfl⟩ := Option.map_eq_some_iff.mp hnext
            rfl
        | onSubscribe change =>
            obtain rfl := Option.some.inj hnext
            unfold IPCNode.onSubscribe
            split <;> rfl
        | onUnsubscribe change =>
            obtain rfl := Option.some.inj hnext
            unfold IPCNode.onUnsubscribe
            split <;> rfl
        | _ =>
            obtain rfl := Option.some.inj hnext
            rfl
  have hsame := hhandle _ _ _ h
  rw [hsame]
  exact ⟨rfl, rfl⟩

/-- A node stays what it was created as: id, path and bound address do not change, and it does not
come back. -/
theorem same_step {k : Nat} {m : DataNode γ} (hm : s.nodes[k]? = some m)
    (hstep : s.step codec limit event = some s') : ∃ m', s'.nodes[k]? = some m' ∧ m.Same m' := by
  have hgoes : ∀ (n n' : DataNode γ) (event : NodeEvent γ), m.Same n → n.Goes codec event n' →
      m.Same n' := by
    intro n n' event h hgoes
    cases hgoes with
    | reads _ _ =>
        unfold DataNode.take
        split <;> exact { h with }
    | looksUp _ _ =>
        unfold DataNode.lookUp
        split <;> exact { h with }
    | updates _ _ hnode =>
        obtain ⟨hid, haddress⟩ := applyUpdate_same hnode
        exact ⟨hid.trans h.nodeId, haddress.trans h.path, h.address⟩
    | _ => exact { h with }
  exact node_step (P := fun n => m.Same n) hgoes (fun _ _ _ _ h _ => { h with })
    (fun _ _ h _ => { h with }) hm ⟨rfl, rfl, rfl⟩ hstep

/-- A node that was known still is. -/
theorem known_step {id : UInt64} {path : String}
    (h : ∃ r ∈ s.nodes, r.nodeId = id ∧ r.path = path)
    (hstep : s.step codec limit event = some s') :
    ∃ r ∈ s'.nodes, r.nodeId = id ∧ r.path = path := by
  obtain ⟨r, hmem, hid, hpath⟩ := h
  obtain ⟨k, hk⟩ := List.getElem?_of_mem hmem
  obtain ⟨r', hr', hsame⟩ := same_step hk hstep
  exact ⟨r', List.mem_of_getElem? hr', hsame.nodeId.trans hid, hsame.path.trans hpath⟩

/-- A JOIN that is that of a node stays so. -/
theorem Introduces.step {msg : TopologyMessage} (h : s.Introduces msg)
    (hstep : s.step codec limit event = some s') : s'.Introduces msg := by
  unfold Introduces at h ⊢
  split
  · rename_i change hop
    rw [hop] at h
    exact fun hjoin => known_step (h hjoin) hstep
  · trivial

/-- What is known of a node stays true when the others change. -/
theorem Informed.grows {n : DataNode γ} (h : s.Informed n)
    (hstep : s.step codec limit event = some s') :
    s'.Informed n where
  bound := h.bound
  routed := by
    obtain ⟨log, hrouted, hlog⟩ := h.routed
    exact ⟨log, hrouted, fun msg hmem => (hlog msg hmem).step hstep⟩
  sending := by
    intro datagram hmem
    obtain ⟨r, hr, hid, haddress⟩ := h.sending datagram hmem
    obtain ⟨k, hk⟩ := List.getElem?_of_mem hr
    obtain ⟨r', hr', hsame⟩ := same_step hk hstep
    have hpath : datagram.address = .ofPath r'.path := by rw [haddress, hsame.path]
    exact ⟨r', List.mem_of_getElem? hr', hsame.nodeId.trans hid, hpath⟩
  sent := by
    intro call hcall j hj
    obtain ⟨r, hr, hid⟩ := h.sent call hcall j hj
    obtain ⟨r', hr', hsame⟩ := same_step hr hstep
    exact ⟨r', hr', hsame.nodeId.trans hid⟩

/-- A call of `sendto` that reaches the node it is for, or nobody. -/
theorem Informed.tried {n : DataNode γ} (h : s.Informed n) {datagram : Datagram}
    {rest : List Datagram} {found : Option Nat} (hsending : n.sending = datagram :: rest)
    (hfound : ∀ j, found = some j → ∃ r, s.nodes[j]? = some r ∧ r.nodeId = datagram.node) :
    s.Informed (n.tried datagram rest found) where
  bound := { h.bound with }
  routed := h.routed
  sending := fun other hmem => h.sending other (hsending ▸ List.mem_cons_of_mem _ hmem)
  sent := by
    intro call hcall j hj
    rcases List.mem_append.mp hcall with hold | hnew
    · exact h.sent call hold j hj
    · obtain rfl := List.mem_singleton.mp hnew
      exact hfound j hj

/-- What `Publish` sends goes to the path of the node it is for. -/
theorem Informed.publish {n : DataNode γ} (h : s.Informed n) {order : List UInt64} {topic : String}
    {data : List UInt8} {datagram : Datagram}
    (hmem : datagram ∈ n.node.publish codec.serialize order topic data) :
    ∃ r ∈ s.nodes, r.nodeId = datagram.node ∧ datagram.address = .ofPath r.path := by
  obtain ⟨log, hrouted, hlog⟩ := h.routed
  obtain ⟨id, _, hdatagram⟩ := List.mem_filterMap.mp hmem
  obtain ⟨neighbor, hneighbor, _, _, rfl⟩ := IPCNode.publishTo_eq_some.mp hdatagram
  have hfollows := hrouted.follows id
  rw [hneighbor] at hfollows
  cases hjoins : joinsSince id log with
  | nil =>
      rw [hjoins] at hfollows
      cases hfollows.2
  | cons first later =>
      rw [hjoins] at hfollows
      obtain ⟨_, found, _, heq, _, hannounced⟩ := hfollows
      obtain rfl := Option.some.inj heq
      have hreported : lastReported first later ∈ joinsSince id log :=
        hjoins ▸ lastReported_mem first later
      obtain ⟨msg, hmsg, hop, hjoin⟩ := mem_joinsSince hreported
      have hintroduces := hlog msg hmsg
      rw [TopologyMessage.JoinOf, hop] at hjoin
      rw [Introduces, hop] at hintroduces
      obtain ⟨r, hr, hid, hpath⟩ := hintroduces hjoin.1
      exact ⟨r, hr, hid.trans hjoin.2, hannounced.address.trans (by rw [hpath])⟩

/-- Whatever a node does on its own, as long as the JOINs it applies are those of nodes. -/
theorem Informed.goes {n n' : DataNode γ} (h : s.Informed n) (hall : ∀ r ∈ s.nodes, r.Bound)
    {action : NodeEvent γ} (hgoes : n.Goes codec action n')
    (honest : ∀ msg, action = .update msg → s.Introduces msg) : s.Informed n' := by
  cases hgoes with
  | publishes _ _ _ => exact { h with bound := { h.bound with }, sending := fun _ => h.publish }
  | answers _ _ _ => exact { h with bound := { h.bound with }, sending := fun _ => h.publish }
  | refuses hsending => exact h.tried hsending fun _ => nofun
  | reads _ _ =>
      unfold DataNode.take
      split <;> exact { h with bound := { h.bound with } }
  | looksUp _ _ =>
      unfold DataNode.lookUp
      split <;> exact { h with bound := { h.bound with } }
  | @updates msg node _ _ hnode =>
      have hintroduces := honest msg rfl
      have hfits : msg.AddressFits := by
        unfold Introduces at hintroduces
        unfold TopologyMessage.AddressFits
        split
        · rename_i change hop
          intro hjoin
          rw [hop] at hintroduces
          obtain ⟨r, hr, _, hpath⟩ := hintroduces hjoin
          have hlength := (hall r hr).length
          rw [hpath] at hlength
          omega
        · trivial
      obtain ⟨log, hrouted, hlog⟩ := h.routed
      obtain ⟨node', hnode', hrouted'⟩ := hrouted.applyUpdate hfits
      obtain rfl := Option.some.inj (hnode.symm.trans hnode')
      have hsame := (applyUpdate_same hnode).2
      refine { h with bound := ⟨?_, ?_⟩, routed := ⟨_, hrouted', fun msg' hmem => ?_⟩ }
      · rw [DataNode.path, hsame]
        exact h.bound.length
      · rw [DataNode.path, hsame]
        exact h.bound.address
      · rcases List.mem_append.mp hmem with hold | hnew
        · exact hlog msg' hold
        · exact List.mem_singleton.mp hnew ▸ hintroduces
  | departs _ =>
      exact { h with
        bound := { h.bound with }
        sending := fun _ hmem => (List.not_mem_nil hmem).elim }
  | _ => exact { h with bound := { h.bound with } }

/-- A new node is bound to its path and knows nothing, so that it has nothing in hand for anybody. -/
theorem informed_new {nodeName : String} {nodeId random : UInt64} {name address : SockaddrUn}
    (hname : name.WellFormed) (hbound : IPCNode.bindName name (dataPath random) = some address) :
    s.Informed
      { node := IPCNode.create nodeId nodeName (dataPath random), address := address } where
  bound := by
    have hlength := length_dataPath random
    have hshort : (dataPath random).toUTF8.toList.length < 108 := by omega
    have haddress := IPCNode.bindName_eq hname hshort
    rw [hbound] at haddress
    refine ⟨hlength, _, ?_, Option.some.inj haddress⟩
    rw [List.length_drop, hname, hlength]
  routed := ⟨[], IPCNode.create_routed .., fun _ hmem => (List.not_mem_nil hmem).elim⟩
  sending := fun _ hmem => (List.not_mem_nil hmem).elim
  sent := fun _ hmem => (List.not_mem_nil hmem).elim

/-- What is known of each node after a step, if the datagrams in hand go to the nodes they are
for. -/
theorem Introduced.informed_step (h : s.Introduced) (honest : s.Honest event)
    (hright : ∀ n ∈ s.nodes, ∀ datagram ∈ n.sending, ∀ j, s.target datagram.address = some j →
      ∃ r, s.nodes[j]? = some r ∧ r.nodeId = datagram.node)
    (hstep : s.step codec limit event = some s') : ∀ n ∈ s'.nodes, s'.Informed n := by
  have hgrown : ∀ n, s.Informed n → s'.Informed n := fun n hn => hn.grows hstep
  have hput : ∀ {t : DataPlane γ} {i : Nat} {n' : DataNode γ}, (∀ n ∈ t.nodes, s'.Informed n) →
      s'.Informed n' → ∀ n ∈ (t.put i n').nodes, s'.Informed n := by
    intro t i n' hall hn' n hmem
    rcases List.mem_or_eq_of_mem_set hmem with hold | rfl
    · exact hall n hold
    · exact hn'
  have hold : ∀ n ∈ s.nodes, s'.Informed n := fun n hmem => hgrown n (h.informed n hmem)
  cases happens_of_step hstep with
  | creates hbound _ =>
      intro n hmem
      rcases List.mem_append.mp hmem with hbefore | hnew
      · exact hold n hbefore
      · rw [List.mem_singleton.mp hnew]
        exact informed_new honest.1 hbound
  | @goes i n n' action hn hgoes =>
      have hmem := List.mem_of_getElem? hn
      have hn' : s.Informed n' :=
        (h.informed n hmem).goes (fun r hr => (h.informed r hr).bound) hgoes
          fun msg hupdate => by rw [hupdate] at honest; exact honest
      exact hput hold (hgrown n' hn')
  | @fails i n datagram rest hn hsending _ =>
      have hmem := List.mem_of_getElem? hn
      exact hput hold (hgrown _ ((h.informed n hmem).tried hsending (by simp)))
  | @sends i j n receiver datagram rest hn hsending hfound hreceiver _ =>
      have hmem := List.mem_of_getElem? hn
      have hsent : s.Informed (n.tried datagram rest (some j)) := by
        refine (h.informed n hmem).tried hsending fun k hk => ?_
        obtain rfl := Option.some.inj hk
        exact hright n hmem datagram (hsending ▸ List.mem_cons_self) _ hfound
      have hafter := hput (i := i) hold (hgrown _ hsent)
      have hreceiver' := hafter receiver (List.mem_of_getElem? hreceiver)
      exact hput hafter { hreceiver' with bound := { hreceiver'.bound with } }

/-- No two nodes have an id or a path in common, since the numbers drawn for a new one are new. -/
theorem Introduced.apart_step (h : s.Introduced) (honest : s.Honest event)
    (hstep : s.step codec limit event = some s') (j k : Nat) (r r' : DataNode γ)
    (hr : s'.nodes[j]? = some r) (hr' : s'.nodes[k]? = some r')
    (hsame : r.nodeId = r'.nodeId ∨ r.path = r'.path) : j = k := by
  -- two nodes that were there before
  have hold : ∀ {a b : DataNode γ}, s.nodes[j]? = some a → s.nodes[k]? = some b → j = k := by
    intro a b ha hb
    obtain ⟨a', ha', hsameA⟩ := same_step ha hstep
    obtain ⟨b', hb', hsameB⟩ := same_step hb hstep
    obtain rfl := Option.some.inj (hr.symm.trans ha')
    obtain rfl := Option.some.inj (hr'.symm.trans hb')
    refine h.apart j k a b ha hb (hsame.imp (fun hid => ?_) fun hpath => ?_)
    · exact hsameA.nodeId.symm.trans (hid.trans hsameB.nodeId)
    · exact hsameA.path.symm.trans (hpath.trans hsameB.path)
  have hlength : s'.nodes.length = s.nodes.length → j = k := by
    intro hlength
    have hj := (List.getElem?_eq_some_iff.mp hr).1
    have hk := (List.getElem?_eq_some_iff.mp hr').1
    exact hold (List.getElem?_eq_getElem (hlength ▸ hj)) (List.getElem?_eq_getElem (hlength ▸ hk))
  cases happens_of_step hstep with
  | @creates nodeName nodeId random name address _ _ =>
      have hlookup : ∀ {l : Nat} {a : DataNode γ}, (s.nodes ++ [({
          node := IPCNode.create nodeId nodeName (dataPath random), address := address } :
            DataNode γ)])[l]? = some a → s.nodes[l]? = some a ∨ (l = s.nodes.length ∧
              a.nodeId = nodeId ∧ a.path = dataPath random) := by
        intro l a ha
        rcases Nat.lt_or_ge l s.nodes.length with hlt | hge
        · exact .inl ((List.getElem?_append_left hlt).symm.trans ha)
        · rw [List.getElem?_append_right hge] at ha
          have hlt := (List.getElem?_eq_some_iff.mp ha).1
          rw [List.length_singleton] at hlt
          rw [List.mem_singleton.mp (List.mem_of_getElem? ha)]
          exact .inr ⟨by omega, rfl, rfl⟩
      rcases hlookup hr with ha | ⟨hj, hid, hpath⟩
      · rcases hlookup hr' with hb | ⟨_, hid', hpath'⟩
        · exact hold ha hb
        · have hnew := honest.2 r (List.mem_of_getElem? ha)
          exact (hsame.elim (fun heq => hnew.1 (heq.trans hid'))
            fun heq => hnew.2 (heq.trans hpath')).elim
      · rcases hlookup hr' with hb | ⟨hk, _, _⟩
        · have hnew := honest.2 r' (List.mem_of_getElem? hb)
          exact (hsame.elim (fun heq => hnew.1 (heq.symm.trans hid))
            fun heq => hnew.2 (heq.symm.trans hpath)).elim
        · exact hj.trans hk.symm
  | goes _ _ => exact hlength List.length_set
  | fails _ _ _ => exact hlength List.length_set
  | sends _ _ _ _ _ => exact hlength (List.length_set.trans List.length_set)

end Steps

/-! ## The node behind an address -/

section Target

variable {codec : MetadataCodec} {limit : Nat} {s s' : DataPlane γ} {n r : DataNode γ}

/-- A string is its bytes. -/
theorem toUTF8_inj {text text' : String} (h : text.toUTF8.toList = text'.toUTF8.toList) :
    text = text' := by
  rw [ByteArray.toList, ByteArray.toList, byteArray_loop, byteArray_loop] at h
  refine String.toByteArray_inj.mp (ByteArray.ext (Array.ext' ?_))
  simpa using h

/-- `Create` has found zeros only if the address ends in zeros. -/
theorem clear_iff {rest : List UInt8} (hlength : n.path.toUTF8.toList.length = 17)
    (hrest : rest.length = 90)
    (haddress : n.address = { sunFamily := afUnix, sunPath := n.path.toUTF8.toList ++ 0 :: rest }) :
    n.Clear ↔ rest = List.replicate 90 0 := by
  have hdrop : n.address.sunPath.drop 18 = rest := by
    rw [haddress, List.drop_append, List.drop_eq_nil_of_le (by omega), hlength]
    rfl
  rw [DataNode.Clear, hdrop, List.eq_replicate_iff]
  exact ⟨fun h => ⟨hrest, h⟩, fun h => h.2⟩

/-- Two nodes, and whether one is bound to the address that is rebuilt for the other. -/
theorem address_eq_iff (hn : n.Bound) (hr : r.Bound) :
    n.address = .ofPath r.path ↔ n.path = r.path ∧ n.Clear := by
  obtain ⟨rest, hrest, haddress⟩ := hn.address
  rw [clear_iff hn.length hrest haddress, haddress, SockaddrUn.ofPath, hr.length]
  constructor
  · intro heq
    have hpath := (SockaddrUn.mk.inj heq).2
    obtain ⟨hfirst, hsecond⟩ := List.append_inj hpath (hn.length.trans hr.length.symm)
    exact ⟨toUTF8_inj hfirst, (List.cons.inj hsecond).2⟩
  · rintro ⟨hpath, rfl⟩
    rw [hpath]
    rfl

/-- The node behind the address that is rebuilt from a path: the one created with it, unless it
has gone or its own address has other bytes behind the path. -/
theorem Introduced.target_iff (h : s.Introduced) (hr : r ∈ s.nodes) (j : Nat) :
    s.target (.ofPath r.path) = some j ↔
      ∃ r', s.nodes[j]? = some r' ∧ r'.isOpen = true ∧ r'.nodeId = r.nodeId ∧ r'.Clear := by
  obtain ⟨k, hk⟩ := List.getElem?_of_mem hr
  have hbound : ∀ {l : Nat} {m : DataNode γ}, s.nodes[l]? = some m → m.Bound := fun hm =>
    (h.informed _ (List.mem_of_getElem? hm)).bound
  have hforward : ∀ l, s.target (.ofPath r.path) = some l → l = k ∧
      ∃ r', s.nodes[l]? = some r' ∧ r'.isOpen = true ∧ r'.nodeId = r.nodeId ∧ r'.Clear := by
    intro l htarget
    obtain ⟨r', hr', hopen, haddress⟩ := target_eq_some htarget
    obtain ⟨hpath, hclear⟩ := (address_eq_iff (hbound hr') (hbound hk)).mp haddress
    obtain rfl := h.apart l k r' r hr' hk (.inr hpath)
    obtain rfl := Option.some.inj (hr'.symm.trans hk)
    exact ⟨rfl, r', hr', hopen, rfl, hclear⟩
  constructor
  · exact fun htarget => (hforward j htarget).2
  · rintro ⟨r', hr', hopen, hid, hclear⟩
    obtain rfl := h.apart j k r' r hr' hk (.inl hid)
    obtain rfl := Option.some.inj (hr'.symm.trans hk)
    have haddress := (address_eq_iff (hbound hk) (hbound hk)).mpr ⟨rfl, hclear⟩
    cases htarget : s.target (.ofPath r'.path) with
    | none =>
        have hnone := List.findIdx?_eq_none_iff.mp htarget r' hr
        simp [hopen, haddress] at hnone
    | some l => rw [(hforward l htarget).1]

/-- The node behind the address of a datagram in hand is the one the datagram is for. -/
theorem Introduced.right (h : s.Introduced) {datagram : Datagram} (hn : n ∈ s.nodes)
    (hmem : datagram ∈ n.sending) (j : Nat) :
    s.target datagram.address = some j ↔
      ∃ r, s.nodes[j]? = some r ∧ r.isOpen = true ∧ r.nodeId = datagram.node ∧ r.Clear := by
  obtain ⟨r, hr, hid, haddress⟩ := (h.informed n hn).sending datagram hmem
  rw [haddress, h.target_iff hr, hid]

/-- All of this is kept by every step. -/
theorem Introduced.step (h : s.Introduced) {event : DataEvent γ} (honest : s.Honest event)
    (hstep : s.step codec limit event = some s') : s'.Introduced where
  informed := by
    refine h.informed_step honest (fun n hn datagram hmem j htarget => ?_) hstep
    obtain ⟨r, hr, _, hid, _⟩ := (h.right hn hmem j).mp htarget
    exact ⟨r, hr, hid⟩
  apart := h.apart_step honest hstep

/-- **The right recipient.**  In every run in which the numbers drawn are new and the JOINs are
those of nodes as they were created: a datagram that a queue has taken has gone to the
node it was for, and the next call of `sendto` is addressed to the socket of a node exactly
when it is the one the datagram is for, has not gone, and has found zeros behind its path. -/
theorem right_recipient {events : List (DataEvent γ)}
    (honest : Along (step codec limit) Honest {} events)
    (hrun : exec (step codec limit) {} events = some s) (hn : n ∈ s.nodes) :
    (∀ call ∈ n.sent, ∀ j, call.2 = some j →
      ∃ r, s.nodes[j]? = some r ∧ r.nodeId = call.1.node) ∧
    ∀ datagram ∈ n.sending, ∀ j, s.target datagram.address = some j ↔
      ∃ r, s.nodes[j]? = some r ∧ r.isOpen = true ∧ r.nodeId = datagram.node ∧ r.Clear := by
  have hstart : Introduced ({} : DataPlane γ) :=
    { informed := fun _ hmem => (List.not_mem_nil hmem).elim
      apart := fun j k r r' hr => by simp at hr }
  have h : s.Introduced :=
    exec_invariant (fun _ _ _ h honest hstep => h.step honest hstep) hstart honest hrun
  exact ⟨(h.informed n hn).sent, fun datagram hmem => h.right hn hmem⟩

/-- Node 1 publishes to node 2, which has subscribed. -/
def publishesOnce : List (DataEvent Nat) :=
  acquainted ++ [.node 0 (.publish [2] "t" [9])]

/-- Two nodes have heard of each other, and the first has a datagram for node 2 in hand. -/
theorem right_recipient_acquainted :
    ∃ s n, exec (step wireMetadata 1) {} publishesOnce = some s ∧
      n ∈ s.nodes ∧ n.sending.length = 1 ∧
      ∀ datagram ∈ n.sending, ∀ j, s.target datagram.address = some j ↔
        ∃ r, s.nodes[j]? = some r ∧ r.isOpen = true ∧ r.nodeId = datagram.node ∧ r.Clear := by
  have honest : Along (step wireMetadata 1) Honest {} publishesOnce := by decide +kernel
  have hends : ((exec (step wireMetadata 1) {} publishesOnce).bind fun s =>
      s.nodes[0]?.map fun n => n.sending.length) = some 1 := by
    decide +kernel
  obtain ⟨s, hrun, hends⟩ := Option.bind_eq_some_iff.mp hends
  obtain ⟨n, hn, hlength⟩ := Option.map_eq_some_iff.mp hends
  have hmem := List.mem_of_getElem? hn
  exact ⟨s, n, hrun, hmem, hlength, (right_recipient honest hrun hmem).2⟩

end Target

end DataPlane

end IpcPubsub
