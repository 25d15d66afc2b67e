import IpcPubsub.RoutingTable

/-!
# The address a node announces

A node binds its socket in `IPCNode::Create` and announces the path in its JOIN;
its peers rebuild the address from the path in `OnJoin`.  Both ends hand the
whole `sockaddr_un` to the kernel, for which the name of an abstract socket is
all of `sun_path`.

A peer clears the structure first.  `Create` does not: it writes the family, the
17 bytes of the path and one zero behind them into a local variable, and the 90
bytes after that are what was on the stack.
-/

namespace IpcPubsub

/-! ## The bytes of a string -/

/-- A byte of an array is that of its list. -/
theorem byteArray_get (bytes : ByteArray) {i : Nat} (h : i < bytes.data.toList.length) :
    bytes.get! i = bytes.data.toList[i] := by
  obtain ⟨data⟩ := bytes
  have hsize : i < data.size := by simpa using h
  rw [Array.getElem_toList]
  exact getElem!_pos data i hsize

/-- What the loop of `toList` has read, and what it has still to read. -/
theorem byteArray_loop (bytes : ByteArray) (i : Nat) (read : List UInt8) :
    ByteArray.toList.loop bytes i read = read.reverse ++ bytes.data.toList.drop i := by
  fun_induction ByteArray.toList.loop bytes i read with
  | case1 i read hi ih =>
      have hlength : i < bytes.data.toList.length := by simpa using hi
      rw [ih, List.reverse_cons, List.append_assoc, List.singleton_append,
        byteArray_get bytes hlength, List.getElem_cons_drop]
  | case2 i read hi =>
      have hlength : bytes.data.toList.length ≤ i := by simpa using hi
      rw [List.drop_eq_nil_of_le hlength, List.append_nil]

/-- The bytes of a string are those of its characters, one after the other. -/
theorem toUTF8_ofList (chars : List Char) :
    (String.ofList chars).toUTF8.toList = chars.flatMap String.utf8EncodeChar := by
  rw [String.toUTF8_eq_toByteArray, String.toByteArray_ofList, ByteArray.toList, byteArray_loop,
    List.reverse_nil, List.nil_append, List.drop_zero, List.utf8Encode,
    List.toList_data_toByteArray]

/-- A string of ASCII characters has a byte for each of them. -/
theorem length_toUTF8_ofList {chars : List Char} (h : ∀ c ∈ chars, c.utf8Size = 1) :
    (String.ofList chars).toUTF8.toList.length = chars.length := by
  rw [toUTF8_ofList]
  induction chars with
  | nil => rfl
  | cons c chars ih =>
      rw [List.flatMap_cons, List.length_append, String.length_utf8EncodeChar,
        h c List.mem_cons_self, ih fun c' hmem => h c' (List.mem_cons_of_mem _ hmem),
        List.length_cons, Nat.add_comm]

/-! ## The random path -/

def hexDigits : List Char :=
  ['0', '1', '2', '3', '4', '5', '6', '7', '8', '9', 'a', 'b', 'c', 'd', 'e', 'f']

/-- What `std::hex << std::setw(16) << std::setfill('0')` prints. -/
def hex16 (n : UInt64) : List Char :=
  (List.range 16).map fun i => hexDigits.getD (n.toNat / 16 ^ (15 - i) % 16) '0'

/-- The path of `Create` for the number drawn: a zero and 16 digits. -/
def dataPath (random : UInt64) : String :=
  String.ofList (Char.ofNat 0 :: hex16 random)

/-- A hexadecimal digit is one byte. -/
theorem hex16_utf8Size {random : UInt64} : ∀ c ∈ hex16 random, c.utf8Size = 1 := by
  have hdigits : ∀ c ∈ '0' :: hexDigits, c.utf8Size = 1 := by
    simp [hexDigits, Char.utf8Size]
  intro c hmem
  obtain ⟨i, _, rfl⟩ := List.mem_map.mp hmem
  refine hdigits _ ?_
  rw [List.getD_eq_getElem?_getD]
  cases hget : hexDigits[random.toNat / 16 ^ (15 - i) % 16]? with
  | none => exact List.mem_cons_self
  | some c => exact List.mem_cons_of_mem _ (List.mem_of_getElem? hget)

/-- So a path is as long as `nsip-` and 16 digits, the first byte being zero: it fits. -/
theorem length_dataPath (random : UInt64) : (dataPath random).toUTF8.toList.length = 17 := by
  have hchars : ∀ c ∈ Char.ofNat 0 :: hex16 random, c.utf8Size = 1 := by
    intro c hmem
    rcases List.mem_cons.mp hmem with rfl | hmem
    · decide
    · exact hex16_utf8Size c hmem
  rw [dataPath, length_toUTF8_ofList hchars, List.length_cons, hex16, List.length_map,
    List.length_range]

/-! ## The two structures -/

/-- The bytes of the structure, the family in little-endian order. -/
def SockaddrUn.bytes (address : SockaddrUn) : List UInt8 :=
  [address.sunFamily.toUInt8, (address.sunFamily >>> 8).toUInt8] ++ address.sunPath

/-- The address `Create` binds.  `name` is the local variable as it is found. -/
def IPCNode.bindName (name : SockaddrUn) (path : String) : Option SockaddrUn :=
  let name : SockaddrUn := { name with sunFamily := afUnix }
  (name.copyPath path.toUTF8.toList).map fun name =>
    { name with sunPath := name.sunPath.set path.toUTF8.toList.length 0 }

/-- A `sockaddr_un` has 108 bytes for the path. -/
def SockaddrUn.WellFormed (address : SockaddrUn) : Prop :=
  address.sunPath.length = 108

/-- Two addresses of a family have the same bytes when their paths have. -/
theorem SockaddrUn.bytes_eq_iff {address address' : SockaddrUn}
    (h : address.sunFamily = address'.sunFamily) :
    address.bytes = address'.bytes ↔ address.sunPath = address'.sunPath := by
  simp [SockaddrUn.bytes, h]

/-- What `Create` binds: the path, a zero, and what was there before. -/
theorem IPCNode.bindName_eq {name : SockaddrUn} {path : String} (hname : name.WellFormed)
    (hpath : path.toUTF8.toList.length < 108) :
    IPCNode.bindName name path = some
      { sunFamily := afUnix
        sunPath :=
          path.toUTF8.toList ++ 0 :: name.sunPath.drop (path.toUTF8.toList.length + 1) } := by
  have hshorter : path.toUTF8.toList.length < name.sunPath.length := by
    rw [hname]
    exact hpath
  have hfits : path.toUTF8.toList.length ≤ name.sunPath.length := Nat.le_of_lt hshorter
  have hdrop : name.sunPath.drop path.toUTF8.toList.length =
      name.sunPath[path.toUTF8.toList.length] ::
        name.sunPath.drop (path.toUTF8.toList.length + 1) :=
    List.drop_eq_getElem_cons hshorter
  simp only [bindName, SockaddrUn.copyPath, if_pos hfits, Option.map_some, hdrop]
  rw [List.set_append_right _ _ (le_refl _), Nat.sub_self, List.set_cons_zero]

/-- What a peer builds: the path, and zeros up to the end of `sun_path`, since `OnJoin` clears the
struct first. -/
theorem IPCNode.onJoin_address {peer : IPCNode} {join : NodeChange}
    (haddress : join.address.toUTF8.toList.length ≤ 108) :
    ∃ peer' neighbor, peer.onJoin join = some peer' ∧
      peer'.mNodeById.lookup join.id = some neighbor ∧
      neighbor.address =
        { sunFamily := afUnix
          sunPath := join.address.toUTF8.toList ++
            List.replicate (108 - join.address.toUTF8.toList.length) 0 } := by
  have hcopy : ({ sunFamily := afUnix } : SockaddrUn).copyPath join.address.toUTF8.toList = some
      { sunFamily := afUnix
        sunPath := join.address.toUTF8.toList ++
          List.replicate (108 - join.address.toUTF8.toList.length) 0 } := by
    simp only [SockaddrUn.copyPath, List.length_replicate, if_pos haddress, List.drop_replicate]
  simp only [onJoin, hcopy, Option.map_some]
  exact ⟨_, _, rfl, Finmap.lookup_insert _, rfl⟩

/-- What `Publish` sends to a node goes to the address in its entry. -/
theorem IPCNode.address_of_mem_publish {serialize : MetadataMessage → List UInt8}
    {node : IPCNode} {order : List UInt64} {topic : String} {data : List UInt8}
    {datagram : Datagram} {neighbor : IPCNeighbor}
    (h : datagram ∈ node.publish serialize order topic data)
    (hneighbor : node.mNodeById.lookup datagram.node = some neighbor) :
    datagram.address = neighbor.address := by
  obtain ⟨id, _, hsent⟩ := List.mem_filterMap.mp h
  obtain ⟨found, hfound, _, _, rfl⟩ := publishTo_eq_some.mp hsent
  obtain rfl := Option.some.inj (hfound.symm.trans hneighbor)
  rfl

/-- **The announced address, exactly.**  Whatever number was drawn and whatever
was on the stack, the structure a node binds and the one a peer builds from its
JOIN, and sends to, are the same bytes exactly when the 90 bytes of the variable
after the path and its zero were zero. -/
theorem bindName_eq_peer_iff (random : UInt64) (name : SockaddrUn) (hname : name.WellFormed)
    (peer : IPCNode) (join : NodeChange) (hjoin : join.address = dataPath random) :
    (∃ bound peer' neighbor, IPCNode.bindName name (dataPath random) = some bound ∧
      peer.onJoin join = some peer' ∧ peer'.mNodeById.lookup join.id = some neighbor ∧
      neighbor.address.bytes = bound.bytes ∧
      ∀ serialize order topic data, ∀ datagram ∈ peer'.publish serialize order topic data,
        datagram.node = join.id → datagram.address.bytes = bound.bytes) ↔
      ∀ byte ∈ name.sunPath.drop 18, byte = 0 := by
  have hlength := length_dataPath random
  have hshort : (dataPath random).toUTF8.toList.length < 108 := by omega
  have hbound := IPCNode.bindName_eq hname hshort
  obtain ⟨peer', neighbor, honJoin, hlookup, haddress⟩ :=
    @IPCNode.onJoin_address peer join (by rw [hjoin]; omega)
  rw [hlength] at hbound
  rw [hjoin, hlength] at haddress
  have hzeros : name.sunPath.drop 18 = List.replicate 90 0 ↔
      ∀ byte ∈ name.sunPath.drop 18, byte = 0 := by
    have hrest : (name.sunPath.drop 18).length = 90 := by rw [List.length_drop, hname]
    rw [List.eq_replicate_iff]
    exact ⟨fun h => h.2, fun h => ⟨hrest, h⟩⟩
  rw [← hzeros]
  constructor
  · rintro ⟨bound, peer'', neighbor'', hbind, honJoin', hlookup', hbytes, _⟩
    obtain rfl := Option.some.inj (honJoin.symm.trans honJoin')
    obtain rfl := Option.some.inj (hlookup.symm.trans hlookup')
    obtain rfl := Option.some.inj (hbound.symm.trans hbind)
    rw [haddress] at hbytes
    have hpath := (SockaddrUn.bytes_eq_iff (by rfl)).mp hbytes
    exact (List.cons.inj (List.append_cancel_left hpath)).2.symm
  · intro hrest
    have hbytes : neighbor.address.bytes =
        SockaddrUn.bytes { sunFamily := afUnix
                           sunPath := (dataPath random).toUTF8.toList ++
                             0 :: name.sunPath.drop 18 } := by
      rw [haddress, hrest]
      rfl
    refine ⟨_, peer', neighbor, hbound, honJoin, hlookup, hbytes, ?_⟩
    rintro serialize order topic data datagram hmem hnode
    rw [IPCNode.address_of_mem_publish hmem (hnode ▸ hlookup), hbytes]

/-- The last byte of the structure is the last of its path. -/
theorem SockaddrUn.getLast_bytes (family : UInt16) (path : List UInt8) {rest : List UInt8}
    (h : rest ≠ []) :
    (SockaddrUn.bytes { sunFamily := family, sunPath := path ++ rest }).getLast? =
      rest.getLast? := by
  rw [SockaddrUn.bytes, ← List.append_assoc, List.getLast?_append_of_ne_nil _ h]

/-- A stack that was zero. -/
def zeroStack : SockaddrUn := {}

/-- Where the stack was clear, the peer sends to the name that was bound. -/
theorem bindName_eq_peer_iff_zeroStack :
    ∃ bound peer' neighbor, IPCNode.bindName zeroStack (dataPath 7) = some bound ∧
      (IPCNode.create 1 "n" "p").onJoin { id := 2, address := dataPath 7 } = some peer' ∧
      peer'.mNodeById.lookup 2 = some neighbor ∧ neighbor.address.bytes = bound.bytes ∧
      ∀ serialize order topic data, ∀ datagram ∈ peer'.publish serialize order topic data,
        datagram.node = 2 → datagram.address.bytes = bound.bytes :=
  (bindName_eq_peer_iff 7 zeroStack rfl (IPCNode.create 1 "n" "p")
    { id := 2, address := dataPath 7 } rfl).mpr (by decide +kernel)

/-- A stack whose last byte of the path was not zero. -/
def usedStack : SockaddrUn where
  sunPath := List.replicate 107 0 ++ [1]

/-- The bytes bound end in what was there before, those of the peer in zero. -/
theorem usedStack_not_reachable :
    ∃ bound peer' neighbor, IPCNode.bindName usedStack (dataPath 7) = some bound ∧
      (IPCNode.create 1 "n" "p").onJoin { id := 2, address := dataPath 7 } = some peer' ∧
      peer'.mNodeById.lookup 2 = some neighbor ∧ neighbor.address.bytes ≠ bound.bytes := by
  have hlength := length_dataPath 7
  have hshort : (dataPath 7).toUTF8.toList.length < 108 := by omega
  obtain ⟨peer', neighbor, honJoin, hlookup, haddress⟩ :=
    @IPCNode.onJoin_address (IPCNode.create 1 "n" "p") { id := 2, address := dataPath 7 }
      (le_of_lt hshort)
  refine ⟨_, peer', neighbor, @IPCNode.bindName_eq usedStack _ rfl hshort, honJoin, hlookup, ?_⟩
  intro hbytes
  have hlast := congrArg List.getLast? hbytes
  rw [haddress, hlength, SockaddrUn.getLast_bytes _ _ (by decide),
    SockaddrUn.getLast_bytes _ _ (by decide)] at hlast
  revert hlast
  decide

end IpcPubsub
