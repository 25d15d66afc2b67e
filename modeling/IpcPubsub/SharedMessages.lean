import IpcPubsub.GuardedRuns

/-!
# Messages through shared memory

A `Publisher` writes a blob to a shared memory file and sends the metadata to its
clients, with a descriptor of the file beside it.  A packet has at least one byte,
so the metadata goes out with a zero behind it.

A `Subscriber` receives into a buffer of 4096 bytes.  `IPCMessage::Create` takes
the bytes it is told of for the metadata, the zero among them, and maps the file
for the contents.  Metadata that does not fit the buffer is cut at its end, and
nothing tests for that.  The result of `mmap` is compared with a null pointer, which
`mmap` never returns; a failed mapping of no bytes does no harm, since nothing is
read through the pointer.

So the metadata arrives with a zero too much, or cut off; only where it is as long
as the buffer does the cut take away just the zero.

What the kernel answers is part of an event.  Sizes are those of a 64-bit Linux.
-/

namespace IpcPubsub

open GuardedRuns

/-! ## Publisher -/

/-- What goes through the socket: bytes, and a descriptor of a file with the given
contents. -/
structure BlobPacket where
  data : List UInt8
  file : List UInt8
  deriving DecidableEq

/-- `write` to a file that was just opened. -/
def writeStart (file data : List UInt8) : List UInt8 := data ++ file.drop data.length

/-- What the kernel answers in a call of `Send`. -/
structure SendAnswers where
  /-- The contents found under the name opened for writing; `none` is an error. -/
  shmFdWrite : Option (List UInt8) := some []
  /-- The number of bytes written; `none` is an error. -/
  written : Option Nat
  /-- Whether the file could be opened for reading. -/
  shmFdSend : Bool := true
  /-- Whether `sendmsg` to a client succeeds. -/
  ns : Int → Bool

structure Publisher where
  mClients : List Int := []
  deriving DecidableEq

/-- The accept thread has got a new client. -/
def Publisher.accept (p : Publisher) (cl : Int) : Publisher :=
  { p with mClients := p.mClients ++ [cl] }

/-- `Send`: whether it returns true, and the packets that were sent.  `sendmsg`
fails for a descriptor that is not open. -/
def Publisher.send (p : Publisher) (metadata data : List UInt8) (answers : SendAnswers) :
    Bool × List (Int × BlobPacket) :=
  match answers.shmFdWrite with
  | none => (false, [])
  | some found =>
      if answers.written ≠ some data.length then (false, [])
      else
        let packet := { data := metadata ++ [0], file := writeStart found data }
        let sent := p.mClients.filter fun client => answers.shmFdSend && answers.ns client
        (true, sent.map fun client => (client, packet))

/-! ## IPCMessage -/

def solSocket : Nat := 1

def scmRights : Nat := 1

def sizeofInt : Nat := 4

def sizeofCmsghdr : Nat := 16

/-- `CMSG_LEN`. -/
def cmsgLen (length : Nat) : Nat := sizeofCmsghdr + length

/-- `CMSG_SPACE`. -/
def cmsgSpace (length : Nat) : Nat := sizeofCmsghdr + (length + 7) / 8 * 8

/-- A `struct cmsghdr` with a descriptor of a file as its data. -/
structure Cmsghdr where
  cmsgLen : Nat
  cmsgLevel : Nat
  cmsgType : Nat
  file : List UInt8
  deriving DecidableEq

/-- A `struct msghdr`, with what its pointers lead to. -/
structure Msghdr where
  iovBase : List UInt8
  iovLen : Nat
  msgIovlen : Nat
  msgControl : Option Cmsghdr
  msgControllen : Nat
  deriving DecidableEq

/-- `CMSG_FIRSTHDR`. -/
def cmsgFirsthdr (msgh : Msghdr) : Option Cmsghdr :=
  if sizeofCmsghdr ≤ msgh.msgControllen then msgh.msgControl else none

/-- What `mmap` returns. -/
inductive Mapping
  | null
  /-- `MAP_FAILED`. -/
  | failed
  | memory (bytes : List UInt8)
  deriving DecidableEq

/-- `mmap` of the first bytes of a file.  It fails for no bytes, and it may fail
for others. -/
def mmap (file : List UInt8) (length : Nat) (granted : Bool) : Mapping :=
  if length = 0 ∨ granted = false then .failed else .memory (file.take length)

structure IPCMessage where
  mMetaData : List UInt8
  mBlobPtr : Mapping
  mBlobSize : Nat
  deriving DecidableEq

namespace IPCMessage

def metaData (m : IPCMessage) : List UInt8 := m.mMetaData

/-- `Contents()`; `none` where the bytes cannot be read. -/
def contents (m : IPCMessage) : Option (List UInt8) :=
  if m.mBlobSize = 0 then some []
  else
    match m.mBlobPtr with
    | .memory bytes => some (bytes.take m.mBlobSize)
    | _ => none

/-- `Create`.  The end of a shared memory file is found by `lseek`. -/
def create (vecLen : Nat) (msgh : Msghdr) (granted : Bool) : Option IPCMessage :=
  match cmsgFirsthdr msgh with
  | none => none
  | some cmsg =>
      if cmsg.cmsgLen ≠ IpcPubsub.cmsgLen sizeofInt then none
      else if cmsg.cmsgLevel ≠ solSocket then none
      else if cmsg.cmsgType ≠ scmRights then none
      else if msgh.msgIovlen = 0 then none
      else if msgh.msgIovlen ≠ 1 then none
      else
        let blobLen := cmsg.file.length
        let mappedData := mmap cmsg.file blobLen granted
        if mappedData = .null then none
        else some
          { mMetaData := msgh.iovBase.take vecLen
            mBlobPtr := mappedData
            mBlobSize := blobLen }

end IPCMessage

/-! ## Subscriber -/

def bufflen : Nat := 4096

/-- The read thread of a subscriber. -/
structure Subscriber where
  msgh : Msghdr :=
    { iovBase := List.replicate bufflen 0
      iovLen := bufflen
      msgIovlen := 1
      msgControl := none
      msgControllen := cmsgSpace sizeofInt }
  running : Bool := true
  deriving DecidableEq

/-- `recvmsg` of a packet: the bytes that fit, and the descriptor if there is room
for it.  It leaves the space used in `msg_controllen`. -/
def recvmsg (msgh : Msghdr) (packet : BlobPacket) : Nat × Msghdr :=
  let read := packet.data.take msgh.iovLen
  let header : Cmsghdr :=
    { cmsgLen := cmsgLen sizeofInt
      cmsgLevel := solSocket
      cmsgType := scmRights
      file := packet.file }
  let fits := cmsgLen sizeofInt ≤ msgh.msgControllen
  (read.length,
    { msgh with
      iovBase := read ++ msgh.iovBase.drop read.length
      msgControl := if fits then some header else msgh.msgControl
      msgControllen := if fits then min (cmsgSpace sizeofInt) msgh.msgControllen else 0 })

/-- One round of the read thread, with the message handed to `mCallback`; no packet
where `recvmsg` reports an error. -/
def Subscriber.receive (s : Subscriber) (packet : Option BlobPacket) (granted : Bool) :
    Subscriber × Option IPCMessage :=
  match packet with
  | none => ({ s with running := false }, none)
  | some packet =>
      let received := recvmsg s.msgh packet
      if received.1 = 0 then ({ s with msgh := received.2, running := false }, none)
      else ({ s with msgh := received.2 }, IPCMessage.create received.1 received.2 granted)

/-! ## One publisher and one of its subscribers -/

/-- What a caller of `Send` wants to arrive. -/
structure BlobMessage where
  metadata : List UInt8
  blob : List UInt8
  deriving DecidableEq

/-- A round of the read thread: whether the kernel could map the file, and what
`mCallback` was called with. -/
structure ReceiveRound where
  granted : Bool
  message : Option IPCMessage
  deriving DecidableEq

/-- `sent` lists the messages for which `Send` returned true and `sendmsg` to the
subscriber succeeded. -/
structure SharedChannel where
  publisher : Publisher := {}
  queue : List BlobPacket := []
  subscriber : Subscriber := {}
  sent : List BlobMessage := []
  rounds : List ReceiveRound := []
  deriving DecidableEq

inductive SharedEvent
  | accept (cl : Int)
  | send (metadata data : List UInt8) (answers : SendAnswers)
  | receive (granted : Bool)

/-- The file ends at the number of bytes written. -/
def SendAnswers.EndsAtWritten (answers : SendAnswers) (data : List UInt8) : Prop :=
  ∀ found ∈ answers.shmFdWrite, found.length ≤ data.length

instance (answers : SendAnswers) (data : List UInt8) :
    Decidable (answers.EndsAtWritten data) := by
  unfold SendAnswers.EndsAtWritten; infer_instance

/-- The packets sent to one client. -/
def packetsTo (client : Int) (sent : List (Int × BlobPacket)) : List BlobPacket :=
  (sent.filter fun pair => pair.1 = client).map Prod.snd

namespace SharedChannel

/-- `client` is the publisher's descriptor for the subscriber.  `accept` returns a
descriptor that is not open, and the publisher closes none. -/
def step (client : Int) (s : SharedChannel) : SharedEvent → Option SharedChannel
  | .accept cl =>
      if cl ∈ s.publisher.mClients then none
      else some { s with publisher := s.publisher.accept cl }
  | .send metadata data answers =>
      if answers.EndsAtWritten data then
        let result := s.publisher.send metadata data answers
        let packets := packetsTo client result.2
        some { s with
          queue := s.queue ++ packets
          sent := if result.1 = true ∧ packets ≠ []
            then s.sent ++ [{ metadata := metadata, blob := data }] else s.sent }
      else none
  | .receive granted =>
      match s.queue with
      | [] => none
      | packet :: rest =>
          if s.subscriber.running then
            let result := s.subscriber.receive (some packet) granted
            some { s with
              queue := rest
              subscriber := result.1
              rounds := s.rounds ++ [{ granted := granted, message := result.2 }] }
          else none

end SharedChannel

namespace BlobMessage

/-- The packet that `Send` makes of a message. -/
def packet (message : BlobMessage) : BlobPacket :=
  { data := message.metadata ++ [0], file := message.blob }

/-- What `Create` makes of that packet. -/
def received (message : BlobMessage) (granted : Bool) : IPCMessage :=
  { mMetaData := message.packet.data.take bufflen
    mBlobPtr := mmap message.blob message.blob.length granted
    mBlobSize := message.blob.length }

/-- The callback got the message as it was given to `Send`. -/
def Arrives (message : BlobMessage) (round : ReceiveRound) : Prop :=
  ∃ m, round.message = some m ∧ m.metaData = message.metadata ∧
    m.contents = some message.blob

end BlobMessage

/-! ## What `Send` puts on the socket -/

/-- A blob that is at least as long as the file replaces it. -/
theorem writeStart_of_length_le {file data : List UInt8} (h : file.length ≤ data.length) :
    writeStart file data = data := by
  simp [writeStart, List.drop_eq_nil_of_le h]

/-- One packet sent to each of several clients arrives once at each. -/
theorem packetsTo_map (client : Int) (packet : BlobPacket) {clients : List Int}
    (hnodup : clients.Nodup) :
    packetsTo client (clients.map fun fd => (fd, packet)) =
      if client ∈ clients then [packet] else [] := by
  induction clients with
  | nil => rfl
  | cons fd clients ih =>
      obtain ⟨hfd, hnodup⟩ := List.nodup_cons.mp hnodup
      have ih := ih hnodup
      rw [packetsTo] at ih ⊢
      by_cases heq : fd = client
      · subst heq
        simpa [hfd] using ih
      · simpa [heq, Ne.symm heq] using ih

/-- A client gets no packet of a call, or the one packet of the message. -/
theorem Publisher.packetsTo_send {p : Publisher} (hnodup : p.mClients.Nodup) (client : Int)
    (metadata : List UInt8) {data : List UInt8} {answers : SendAnswers}
    (hend : answers.EndsAtWritten data) :
    packetsTo client (p.send metadata data answers).2 = [] ∨
      ((p.send metadata data answers).1 = true ∧
        packetsTo client (p.send metadata data answers).2 =
          [BlobMessage.packet { metadata := metadata, blob := data }]) := by
  cases hfound : answers.shmFdWrite with
  | none =>
      left
      simp [Publisher.send, hfound, packetsTo]
  | some found =>
      have hfile : writeStart found data = data := writeStart_of_length_le (hend found hfound)
      by_cases hwritten : answers.written = some data.length
      · have hsent := packetsTo_map client
          (BlobMessage.packet { metadata := metadata, blob := data })
          (hnodup.filter fun client => answers.shmFdSend && answers.ns client)
        have hsend : p.send metadata data answers =
            (true, (p.mClients.filter fun client => answers.shmFdSend && answers.ns client).map
              fun fd => (fd, BlobMessage.packet { metadata := metadata, blob := data })) := by
          simp [Publisher.send, hfound, hwritten, hfile, BlobMessage.packet]
        rw [hsend, hsent]
        split
        · right
          exact ⟨rfl, rfl⟩
        · left
          rfl
      · left
        simp [Publisher.send, hfound, hwritten, packetsTo]

/-! ## What the read thread makes of it -/

/-- The header is fit for another packet. -/
structure Msghdr.Ready (msgh : Msghdr) : Prop where
  iovLen : msgh.iovLen = bufflen
  msgIovlen : msgh.msgIovlen = 1
  msgControllen : msgh.msgControllen = cmsgSpace sizeofInt

structure Subscriber.Ready (s : Subscriber) : Prop where
  running : s.running = true
  msgh : s.msgh.Ready

/-- `recvmsg` leaves the header ready for the next packet. -/
theorem Msghdr.Ready.recvmsg {msgh : Msghdr} (h : msgh.Ready) (packet : BlobPacket) :
    (recvmsg msgh packet).2.Ready where
  iovLen := h.iovLen
  msgIovlen := h.msgIovlen
  msgControllen := by simp [IpcPubsub.recvmsg, h.msgControllen, cmsgLen, cmsgSpace, sizeofInt]

/-- `mmap` reports a failure with `MAP_FAILED`, which is not the null pointer. -/
theorem mmap_ne_null (file : List UInt8) (length : Nat) (granted : Bool) :
    mmap file length granted ≠ .null := by
  unfold mmap
  split <;> simp

/-- `Create` takes the descriptor out of every packet, and of its text what fits the buffer. -/
theorem IPCMessage.create_recvmsg {msgh : Msghdr} (h : msgh.Ready) (packet : BlobPacket)
    (granted : Bool) :
    IPCMessage.create (recvmsg msgh packet).1 (recvmsg msgh packet).2 granted =
      some { mMetaData := packet.data.take bufflen
             mBlobPtr := mmap packet.file packet.file.length granted
             mBlobSize := packet.file.length } := by
  have hfits : cmsgLen sizeofInt ≤ msgh.msgControllen := by rw [h.msgControllen]; decide
  have hfirst : cmsgFirsthdr (recvmsg msgh packet).2 = some
      { cmsgLen := cmsgLen sizeofInt, cmsgLevel := solSocket, cmsgType := scmRights,
        file := packet.file } := by
    have hroom : sizeofCmsghdr ≤ (recvmsg msgh packet).2.msgControllen := by
      rw [(h.recvmsg packet).msgControllen]; decide
    rw [cmsgFirsthdr, if_pos hroom]
    simp [recvmsg, hfits]
  have hbytes : (recvmsg msgh packet).2.iovBase.take (recvmsg msgh packet).1 =
      packet.data.take bufflen := by
    simp [recvmsg, h.iovLen]
  simp [IPCMessage.create, hfirst, (h.recvmsg packet).msgIovlen, mmap_ne_null, hbytes]

/-- One round: the thread is ready for the next packet, and has handed on one
message. -/
theorem Subscriber.Ready.receive {s : Subscriber} (h : s.Ready) (message : BlobMessage)
    (granted : Bool) :
    (s.receive (some message.packet) granted).1.Ready ∧
      (s.receive (some message.packet) granted).2 = some (message.received granted) := by
  have hread : (recvmsg s.msgh message.packet).1 ≠ 0 := by
    simp [recvmsg, h.msgh.iovLen, BlobMessage.packet, bufflen]
  have hcreate := IPCMessage.create_recvmsg h.msgh message.packet granted
  have hreceive : s.receive (some message.packet) granted =
      ({ s with msgh := (recvmsg s.msgh message.packet).2 },
        IPCMessage.create (recvmsg s.msgh message.packet).1
          (recvmsg s.msgh message.packet).2 granted) := by
    simp [Subscriber.receive, hread]
  rw [hreceive, hcreate]
  exact ⟨⟨h.running, h.msgh.recvmsg message.packet⟩, rfl⟩

/-- The buffer cuts the zero off again where the metadata fills it. -/
theorem take_bufflen_eq_iff (metadata : List UInt8) :
    (metadata ++ [0]).take bufflen = metadata ↔ metadata.length = bufflen := by
  constructor
  · intro h
    have hlength := congrArg List.length h
    simp only [List.length_take, List.length_append, List.length_singleton] at hlength
    omega
  · intro h
    exact List.take_left' h

/-- A failed mapping loses a blob unless it is empty. -/
theorem contents_received_eq_iff (message : BlobMessage) (granted : Bool) :
    (message.received granted).contents = some message.blob ↔
      message.blob = [] ∨ granted = true := by
  by_cases hblob : message.blob = []
  · simp [BlobMessage.received, IPCMessage.contents, hblob]
  · have hlength : message.blob.length ≠ 0 := by simpa using hblob
    cases granted <;> simp [BlobMessage.received, IPCMessage.contents, mmap, hblob]

namespace SharedChannel

variable {client : Int} {s s' : SharedChannel}

/-! ## Runs -/

/-- The queue holds what was sent and not yet received, and each round has handed
on the message it received. -/
structure Synced (s : SharedChannel) : Prop where
  nodup : s.publisher.mClients.Nodup
  ready : s.subscriber.Ready
  rounds_le : s.rounds.length ≤ s.sent.length
  queue : s.queue = (s.sent.drop s.rounds.length).map BlobMessage.packet
  message : ∀ (k : Nat) (message : BlobMessage) (round : ReceiveRound),
    s.sent[k]? = some message → s.rounds[k]? = some round →
      round.message = some (message.received round.granted)

/-- Nothing has been sent, and the header is ready for the first packet. -/
theorem start_synced : ({} : SharedChannel).Synced where
  nodup := List.nodup_nil
  ready := ⟨rfl, rfl, rfl, rfl⟩
  rounds_le := Nat.le_refl 0
  queue := rfl
  message := by simp

/-- One more client is accepted, and what is on its way stays on its way. -/
theorem Synced.accept (h : s.Synced) {cl : Int} (hcl : cl ∉ s.publisher.mClients) :
    { s with publisher := s.publisher.accept cl }.Synced :=
  { h with nodup := by simpa [Publisher.accept] using h.nodup.concat hcl }

/-- A message that was sent goes behind those in flight. -/
theorem Synced.send (h : s.Synced) (message : BlobMessage) :
    { s with queue := s.queue ++ [message.packet], sent := s.sent ++ [message] }.Synced where
  nodup := h.nodup
  ready := h.ready
  rounds_le := by simpa using Nat.le_succ_of_le h.rounds_le
  queue := by simp [h.queue, List.drop_append_of_le_length h.rounds_le]
  message := by
    intro k other round hother hround
    have hk : k < s.rounds.length := (List.getElem?_eq_some_iff.mp hround).1
    have hlt : k < s.sent.length := Nat.lt_of_lt_of_le hk h.rounds_le
    rw [List.getElem?_append_left hlt] at hother
    exact h.message k other round hother hround

/-- The oldest message in flight gets the next round, and the buffers are ready for the one after
it. -/
theorem Synced.receive (h : s.Synced) {packet : BlobPacket} {rest : List BlobPacket}
    (hqueue : s.queue = packet :: rest) (granted : Bool) :
    { s with
      queue := rest
      subscriber := (s.subscriber.receive (some packet) granted).1
      rounds := s.rounds ++
        [ReceiveRound.mk granted (s.subscriber.receive (some packet) granted).2] }.Synced := by
  have hdrop := h.queue
  rw [hqueue] at hdrop
  obtain ⟨next, behind, hsent, rfl, hbehind⟩ := List.map_eq_cons_iff.mp hdrop.symm
  have hlt : s.rounds.length < s.sent.length := by
    have hlength := congrArg List.length hsent
    simp only [List.length_drop, List.length_cons] at hlength
    omega
  have hnext : s.sent[s.rounds.length]? = some next := by
    have hhead := congrArg List.head? hsent
    simpa using hhead
  have hround := h.ready.receive next granted
  refine ⟨h.nodup, hround.1, by simpa using hlt, ?_, ?_⟩
  · have htail : s.sent.drop (s.rounds.length + 1) = behind := by
      simpa using congrArg List.tail hsent
    simp [htail, hbehind]
  · intro k message round hmessage hk
    rcases Nat.lt_or_ge k s.rounds.length with hlater | hlast
    · rw [List.getElem?_append_left hlater] at hk
      exact h.message k message round hmessage hk
    · rw [List.getElem?_append_right hlast, List.getElem?_singleton] at hk
      split at hk
      · obtain rfl : k = s.rounds.length := by omega
        obtain rfl : next = message := Option.some.inj (hnext.symm.trans hmessage)
        obtain rfl := Option.some.inj hk
        exact hround.2
      · cases hk

/-- Every event keeps the packets on their way those that were sent and not received. -/
theorem Synced.step (h : s.Synced) {event : SharedEvent} (hstep : s.step client event = some s') :
    s'.Synced := by
  cases event with
  | accept cl =>
      simp only [SharedChannel.step] at hstep
      split at hstep
      · cases hstep
      · obtain rfl := Option.some.inj hstep
        exact h.accept ‹_›
  | send metadata data answers =>
      simp only [SharedChannel.step] at hstep
      split at hstep
      · obtain rfl := Option.some.inj hstep
        rcases Publisher.packetsTo_send h.nodup client metadata ‹_› with hnone | ⟨htrue, hone⟩
        · simpa [hnone] using h
        · simpa [hone, htrue] using h.send { metadata := metadata, blob := data }
      · cases hstep
  | receive granted =>
      cases hqueue : s.queue with
      | nil => simp [SharedChannel.step, hqueue] at hstep
      | cons packet rest =>
          simp only [SharedChannel.step, hqueue, h.ready.running, if_true] at hstep
          obtain rfl := Option.some.inj hstep
          exact h.receive hqueue granted

/-- And so it is in every state of a run. -/
theorem synced_of_exec {events : List SharedEvent}
    (hs : exec (SharedChannel.step client) {} events = some s) : s.Synced :=
  exec_preserves (fun _ _ _ h hstep => h.step hstep) start_synced hs

/-- A message in flight can always be received. -/
theorem Synced.receive_isSome (h : s.Synced) (hqueue : s.queue ≠ []) (granted : Bool) :
    (s.step client (.receive granted)).isSome := by
  obtain ⟨packet, rest, hcons⟩ := List.exists_cons_of_ne_nil hqueue
  simp [SharedChannel.step, hcons, h.ready.running]

/-- What arrives, by the length of the metadata and the answer of `mmap`. -/
theorem Synced.arrives_iff (h : s.Synced) {k : Nat} {message : BlobMessage} {round : ReceiveRound}
    (hmessage : s.sent[k]? = some message) (hround : s.rounds[k]? = some round) :
    message.Arrives round ↔
      message.metadata.length = bufflen ∧ (message.blob = [] ∨ round.granted = true) := by
  have hreceived := h.message k message round hmessage hround
  rw [← take_bufflen_eq_iff, ← contents_received_eq_iff]
  constructor
  · rintro ⟨m, hm, hmeta, hcontents⟩
    obtain rfl := Option.some.inj (hm.symm.trans hreceived)
    exact ⟨hmeta, hcontents⟩
  · rintro ⟨hmeta, hcontents⟩
    exact ⟨_, hreceived, hmeta, hcontents⟩

/-- **Round trip.**  Every message that was sent is waiting in the socket or had
one round of the read thread of its own, in the order of the calls; a waiting one
can be received.  It arrives as it was sent exactly when its metadata fills the
buffer, which cuts off the zero behind it, and its blob is empty or could be
mapped. -/
theorem roundTrip_iff (client : Int) {events : List SharedEvent}
    (hs : exec (SharedChannel.step client) {} events = some s) :
    s.rounds.length + s.queue.length = s.sent.length ∧
      (s.queue ≠ [] → ∀ granted, (s.step client (.receive granted)).isSome) ∧
      ∀ (k : Nat) (message : BlobMessage) (round : ReceiveRound),
        s.sent[k]? = some message → s.rounds[k]? = some round →
          (message.Arrives round ↔
            message.metadata.length = bufflen ∧ (message.blob = [] ∨ round.granted = true)) := by
  have h := synced_of_exec hs
  refine ⟨?_, h.receive_isSome, fun k message round => h.arrives_iff⟩
  have hle := h.rounds_le
  simp only [h.queue, List.length_map, List.length_drop]
  omega

/-- Metadata as long as the buffer, and no blob. -/
def fullBuffer : List SharedEvent :=
  [.accept 5,
    .send (List.replicate bufflen 116) [] { written := some 0, ns := fun _ => true },
    .receive false]

/-- A metadata string that just fills the buffer, without its final zero. -/
theorem roundTrip_iff_fullBuffer :
    ∃ s round, exec (SharedChannel.step 5) {} fullBuffer = some s ∧
      s.rounds[0]? = some round ∧
      BlobMessage.Arrives { metadata := List.replicate bufflen 116, blob := [] } round := by
  obtain ⟨s, hrun⟩ : ∃ s, exec (SharedChannel.step 5) {} fullBuffer = some s := ⟨_, rfl⟩
  have hsent : ∀ s ∈ exec (SharedChannel.step 5) {} fullBuffer,
      s.sent[0]? = some { metadata := List.replicate bufflen 116, blob := [] } ∧
        ∃ round, s.rounds[0]? = some round := by
    rintro _ ⟨⟩
    exact ⟨rfl, _, rfl⟩
  obtain ⟨hmessage, round, hround⟩ := hsent s hrun
  refine ⟨s, round, hrun, hround, ?_⟩
  refine ((roundTrip_iff 5 hrun).2.2 0 _ round hmessage hround).mpr ?_
  exact ⟨List.length_replicate, .inl rfl⟩

/-- What the standalone publisher sends: the metadata "txt" with the blob "hello". -/
def txtHello : BlobMessage :=
  { metadata := [116, 120, 116], blob := [104, 101, 108, 108, 111, 0] }

def sendTxt : List SharedEvent :=
  [.accept 5,
    .send txtHello.metadata txtHello.blob { written := some 6, ns := fun _ => true },
    .receive true]

/-- The metadata arrives with a zero behind it. -/
theorem sendTxt_arrives_longer :
    ∃ s round m, exec (SharedChannel.step 5) {} sendTxt = some s ∧
      s.sent[0]? = some txtHello ∧ s.rounds[0]? = some round ∧ round.message = some m ∧
      m.metaData = [116, 120, 116, 0] ∧ m.contents = some txtHello.blob ∧
      ¬ txtHello.Arrives round := by
  refine ⟨_, _, _, rfl, rfl, rfl, rfl, ?_, ?_, ?_⟩
  · rfl
  · rfl
  · rintro ⟨m, hm, hmeta, -⟩
    obtain rfl := Option.some.inj hm
    exact absurd hmeta (by decide)

end SharedChannel

end IpcPubsub
