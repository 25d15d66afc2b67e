import IpcPubsub.FiniteMap
import IpcPubsub.SettlingRuns
import IpcPubsub.SharedMessages

/-!
# The files behind the messages

`Send` writes a blob to a file under a random name, opens the file again by that name to
read, passes this descriptor on, and unlinks the name.  All publishers of all processes
share the names.  `shm_open` is told to create the file, but not that it has to be new, and
not to empty it; so two calls that have drawn one name at a time write over each other.

A subscriber maps a file when it gets to the packet, and reads it when it likes.  As long
as the names drawn are not in use, every file that was passed on has the blob of its
message, and keeps it (`contents_kept`).
-/

namespace IpcPubsub

open FiniteMap GuardedRuns

/-- Where a call of `Send` is. -/
inductive SendPoint
  | creating
  | writing
  | opening
  /-- Before `sendmsg` to the first of these clients. -/
  | sending (left : List Int)
  /-- After a failed `write`. -/
  | failed
  | returned
  deriving DecidableEq

/-- A call of `Send`; files are numbered in the order in which they were created. -/
structure SendCall where
  name : String
  metadata : List UInt8
  data : List UInt8
  pc : SendPoint := .creating
  shmFdWrite : Option Nat := none
  shmFdSend : Option Nat := none
  /-- All of the data has been written. -/
  complete : Bool := false
  deriving DecidableEq

/-- A packet with the file whose descriptor is beside it. -/
structure SharedPacket where
  call : Nat
  client : Int
  data : List UInt8
  file : Nat
  deriving DecidableEq

def SendCall.message (c : SendCall) : BlobMessage := { metadata := c.metadata, blob := c.data }

/-- What all processes share. -/
structure SharedFiles where
  names : UnorderedMap String Nat := ∅
  files : List (List UInt8) := []
  calls : List SendCall := []
  sent : List SharedPacket := []

/-- The system calls of `Send`, with what the kernel answers. -/
inductive SendAction
  | create (ok : Bool)
  | write (written : Option Nat)
  | openAgain (ok : Bool) (mClients : List Int)
  | sendmsg (ok : Bool)
  | unlink

inductive FileEvent
  /-- `Send` is called and draws a name. -/
  | call (name : String) (metadata data : List UInt8)
  | act (i : Nat) (action : SendAction)

namespace SharedFiles

def put (s : SharedFiles) (i : Nat) (c : SendCall) : SharedFiles :=
  { s with calls := s.calls.set i c }

def act (s : SharedFiles) (i : Nat) (c : SendCall) : SendAction → Option SharedFiles
  | .create ok =>
      if c.pc ≠ .creating then none
      else if ok = false then some (s.put i { c with pc := .returned })
      else
        match s.names.lookup c.name with
        | some file => some (s.put i { c with pc := .writing, shmFdWrite := some file })
        | none =>
            some
              { s.put i { c with pc := .writing, shmFdWrite := some s.files.length } with
                names := s.names.insert c.name s.files.length
                files := s.files ++ [[]] }
  | .write written =>
      match c.pc, c.shmFdWrite with
      | .writing, some file =>
          match written with
          | none => some (s.put i { c with pc := .failed })
          | some n =>
              if c.data.length < n then none
              else
                let next := if n = c.data.length then { c with pc := .opening, complete := true }
                  else { c with pc := .failed }
                some { s.put i next with
                  files := s.files.modify file fun found => writeStart found (c.data.take n) }
      | _, _ => none
  | .openAgain ok mClients =>
      if c.pc ≠ .opening then none
      else
        let fd := if ok then s.names.lookup c.name else none
        some (s.put i { c with pc := .sending mClients, shmFdSend := fd })
  | .sendmsg ok =>
      match c.pc with
      | .sending (client :: left) =>
          let next := s.put i { c with pc := .sending left }
          match c.shmFdSend, ok with
          | some file, true =>
              let packet : SharedPacket :=
                { call := i, client := client, data := c.metadata ++ [0], file := file }
              some { next with sent := s.sent ++ [packet] }
          | _, _ => some next
      | _ => none
  | .unlink =>
      if c.pc = .sending [] ∨ c.pc = .failed then
        some { s.put i { c with pc := .returned } with names := s.names.erase c.name }
      else none

def step (s : SharedFiles) : FileEvent → Option SharedFiles
  | .call name metadata data =>
      some { s with calls := s.calls ++ [{ name := name, metadata := metadata, data := data }] }
  | .act i action => s.calls[i]?.bind fun c => s.act i c action

/-- What a subscriber gets that receives the packet now. -/
def found (s : SharedFiles) (p : SharedPacket) : Option BlobPacket :=
  s.files[p.file]?.map fun file => { data := p.data, file := file }

/-- A name that is drawn is not in use: every call that has drawn it has returned.  A call that
was killed has not unlinked its name, and counts as under way for good; one that has returned
has, since `shm_unlink` succeeds where the name exists. -/
def Fresh (s : SharedFiles) : FileEvent → Prop
  | .call name _ _ => ∀ c ∈ s.calls, c.name = name → c.pc = .returned
  | .act _ _ => True

instance (s : SharedFiles) : ∀ event, Decidable (s.Fresh event)
  | .call name _ _ => inferInstanceAs (Decidable (∀ c ∈ s.calls, c.name = name → c.pc = .returned))
  | .act _ _ => isTrue trivial

end SharedFiles

/-! ## One call -/

/-- The call has a file that its name leads to. -/
def SendCall.Linked (c : SendCall) : Prop := c.pc ≠ .creating ∧ c.pc ≠ .returned

/-- What holds of a call by itself. -/
structure SendCall.Sound (s : SharedFiles) (c : SendCall) : Prop where
  creating : c.pc = .creating → c.shmFdWrite = none
  linked : c.Linked → ∃ file, c.shmFdWrite = some file ∧ s.names.lookup c.name = some file
  created : ∀ file, c.shmFdWrite = some file → file < s.files.length
  empty : c.pc = .writing → ∀ file, c.shmFdWrite = some file → s.files[file]? = some []
  unwritten : c.pc = .creating ∨ c.pc = .writing → c.complete = false
  written : ∀ left, c.pc = .opening ∨ c.pc = .sending left → c.complete
  contents : c.complete → ∀ file, c.shmFdWrite = some file → s.files[file]? = some c.data
  passed : ∀ file, c.shmFdSend = some file → c.shmFdWrite = some file ∧ c.complete

/-- A step that leaves alone the name and the file of a call keeps the call sound. -/
theorem SendCall.Sound.frame {s s' : SharedFiles} {c : SendCall} (h : c.Sound s)
    (hnames : c.Linked → s'.names.lookup c.name = s.names.lookup c.name)
    (hfiles : ∀ file, c.shmFdWrite = some file → s'.files[file]? = s.files[file]?) :
    c.Sound s' where
  creating := h.creating
  linked hc := by
    obtain ⟨file, hfile, hname⟩ := h.linked hc
    exact ⟨file, hfile, (hnames hc).trans hname⟩
  created file hfile := by
    have hlt := h.created file hfile
    have heq := hfiles file hfile
    rw [List.getElem?_eq_getElem hlt] at heq
    exact (List.getElem?_eq_some_iff.mp heq).1
  empty hpc file hfile := (hfiles file hfile).trans (h.empty hpc file hfile)
  unwritten := h.unwritten
  written := h.written
  contents hc file hfile := (hfiles file hfile).trans (h.contents hc file hfile)
  passed := h.passed

/-- A call that has not written all of its blob has no descriptor to pass on yet. -/
theorem SendCall.Sound.shmFdSend_ne {s : SharedFiles} {c : SendCall} (h : c.Sound s)
    (hc : c.complete = false) (file : Nat) : c.shmFdSend ≠ some file := by
  intro hfile
  have hcomplete := (h.passed file hfile).2
  rw [hc] at hcomplete
  cases hcomplete

/-- Past the `write`, a call that goes on stays sound: its file is not written to any more. -/
theorem SendCall.Sound.moveTo {s : SharedFiles} {c : SendCall} (h : c.Sound s) (pc : SendPoint)
    (hpast : pc ≠ .creating ∧ pc ≠ .writing) (hlinked : pc = .returned ∨ c.Linked)
    (hwritten : ∀ left, pc = .opening ∨ pc = .sending left → c.complete) :
    SendCall.Sound s { c with pc := pc } where
  creating hpc := absurd hpc hpast.1
  linked hc := h.linked (hlinked.resolve_left hc.2)
  created := h.created
  empty hpc := absurd hpc hpast.2
  unwritten hpc := by
    obtain hpc | hpc := hpc
    · exact absurd hpc hpast.1
    · exact absurd hpc hpast.2
  written := hwritten
  contents := h.contents
  passed := h.passed

/-! ## All calls -/

namespace SharedFiles

structure Sound (s : SharedFiles) : Prop where
  calls : ∀ {i : Nat} {c : SendCall}, s.calls[i]? = some c → c.Sound s
  /-- No two calls that are under way have one name. -/
  apart : ∀ {i j : Nat} {c d : SendCall}, s.calls[i]? = some c → s.calls[j]? = some d →
    c.name = d.name → c.pc ≠ .returned → d.pc ≠ .returned → i = j
  /-- No two calls have one file. -/
  distinct : ∀ {i j : Nat} {c d : SendCall} {file : Nat}, s.calls[i]? = some c →
    s.calls[j]? = some d → c.shmFdWrite = some file → d.shmFdWrite = some file → i = j
  /-- Every name that is there belongs to a call. -/
  owned : ∀ {name : String} {file : Nat}, s.names.lookup name = some file →
    ∃ c ∈ s.calls, c.name = name ∧ c.Linked
  sent : ∀ p ∈ s.sent, ∃ c, s.calls[p.call]? = some c ∧ p.data = c.metadata ++ [0] ∧
    c.shmFdWrite = some p.file ∧ c.complete

/-- Before the first call there are no files and no names, and nothing has been passed on. -/
theorem create_sound : Sound {} where
  calls h := by simp at h
  apart h := by simp at h
  distinct h := by simp at h
  owned h := by simp at h
  sent := by simp

/-- The calls after one of them has moved on, and the others as they were. -/
theorem put_calls {s : SharedFiles} {i j : Nat} {c c' d : SendCall}
    (hi : s.calls[i]? = some c) :
    (s.calls.set i c')[j]? = some d ↔ (j = i ∧ d = c') ∨ (j ≠ i ∧ s.calls[j]? = some d) := by
  have hlt : i < s.calls.length := (List.getElem?_eq_some_iff.mp hi).1
  rw [List.getElem?_set]
  by_cases hij : i = j
  · subst hij
    simp [hlt, eq_comm]
  · simp [hij, Ne.symm hij]

/-- What a step of call `i` has to meet.  The other calls only have to find their own name and
file as they were. -/
theorem Sound.put {s s' : SharedFiles} {i : Nat} {c c' : SendCall} (hs : s.Sound)
    (hi : s.calls[i]? = some c) (hcalls : s'.calls = s.calls.set i c')
    (hname : c'.name = c.name) (hmeta : c'.metadata = c.metadata) (hpc : c.pc ≠ .returned)
    (hself : c'.Sound s')
    (hothers : ∀ j d, j ≠ i → s.calls[j]? = some d → d.Sound s → d.Sound s')
    (hfile : ∀ file, c'.shmFdWrite = some file →
      c.shmFdWrite = some file ∨ file = s.files.length)
    (hkept : c.complete → c'.complete ∧ c'.shmFdWrite = c.shmFdWrite)
    (howned : ∀ name file, s'.names.lookup name = some file →
      (name = c.name ∧ c'.Linked) ∨ (name ≠ c.name ∧ s.names.lookup name = some file))
    (hsent : ∀ p ∈ s'.sent, p ∈ s.sent ∨ (p.call = i ∧ p.data = c'.metadata ++ [0] ∧
      c'.shmFdWrite = some p.file ∧ c'.complete)) :
    s'.Sound where
  calls {j d} hj := by
    rw [hcalls, put_calls hi] at hj
    obtain ⟨-, rfl⟩ | ⟨hne, hj⟩ := hj
    · exact hself
    · exact hothers j d hne hj (hs.calls hj)
  apart {j k d e} hj hk hnames hd he := by
    rw [hcalls, put_calls hi] at hj hk
    obtain ⟨rfl, rfl⟩ | ⟨hne, hj⟩ := hj <;> obtain ⟨rfl, rfl⟩ | ⟨hne', hk⟩ := hk
    · rfl
    · exact hs.apart hi hk (hname.symm.trans hnames) hpc he
    · exact hs.apart hj hi (hnames.trans hname) hd hpc
    · exact hs.apart hj hk hnames hd he
  distinct {j k d e file} hj hk hd he := by
    rw [hcalls, put_calls hi] at hj hk
    obtain ⟨rfl, rfl⟩ | ⟨hne, hj⟩ := hj <;> obtain ⟨rfl, rfl⟩ | ⟨hne', hk⟩ := hk
    · rfl
    · obtain hc | rfl := hfile file hd
      · exact hs.distinct hi hk hc he
      · exact absurd ((hs.calls hk).created _ he) (lt_irrefl _)
    · obtain hc | rfl := hfile file he
      · exact hs.distinct hj hi hd hc
      · exact absurd ((hs.calls hj).created _ hd) (lt_irrefl _)
    · exact hs.distinct hj hk hd he
  owned {name file} h := by
    obtain ⟨rfl, hlinked⟩ | ⟨hne, h⟩ := howned name file h
    · have hmem : s'.calls[i]? = some c' := by
        rw [hcalls, put_calls hi]
        exact .inl ⟨rfl, rfl⟩
      exact ⟨c', List.mem_of_getElem? hmem, hname, hlinked⟩
    · obtain ⟨d, hd, rfl, hlinked⟩ := hs.owned h
      obtain ⟨j, hj⟩ := List.getElem?_of_mem hd
      have hji : j ≠ i := by
        rintro rfl
        obtain rfl : c = d := by simpa [hi] using hj
        exact hne rfl
      have hmem : s'.calls[j]? = some d := by
        rw [hcalls, put_calls hi]
        exact .inr ⟨hji, hj⟩
      exact ⟨d, List.mem_of_getElem? hmem, rfl, hlinked⟩
  sent p hp := by
    obtain hp | ⟨hcall, hdata, hfile, hcomplete⟩ := hsent p hp
    · obtain ⟨d, hd, hdata, hfile, hcomplete⟩ := hs.sent p hp
      by_cases hpi : p.call = i
      · obtain rfl : c = d := by simpa [hpi, hi] using hd
        obtain ⟨hc, hw⟩ := hkept hcomplete
        refine ⟨c', ?_, by rw [hmeta, hdata], hw.trans hfile, hc⟩
        rw [hcalls, put_calls hi]
        exact .inl ⟨hpi, rfl⟩
      · refine ⟨d, ?_, hdata, hfile, hcomplete⟩
        rw [hcalls, put_calls hi]
        exact .inr ⟨hpi, hd⟩
    · refine ⟨c', ?_, hdata, hfile, hcomplete⟩
      rw [hcalls, put_calls hi]
      exact .inl ⟨hcall, rfl⟩

/-- A name that leads to a file leads to that of the call that has drawn it. -/
theorem Sound.linked {s : SharedFiles} {i file : Nat} {c : SendCall} (hs : s.Sound)
    (hi : s.calls[i]? = some c) (hpc : c.pc ≠ .returned)
    (h : s.names.lookup c.name = some file) : c.Linked := by
  obtain ⟨d, hd, hname, hlinked⟩ := hs.owned h
  obtain ⟨j, hj⟩ := List.getElem?_of_mem hd
  obtain rfl := hs.apart hj hi hname hlinked.2 hpc
  obtain rfl : c = d := by simpa [hi] using hj
  exact hlinked

/-- Only the call itself has moved on, and may have sent a packet. -/
theorem Sound.proceed {s : SharedFiles} {i : Nat} {c c' : SendCall} (hs : s.Sound)
    (more : List SharedPacket) (hi : s.calls[i]? = some c) (hname : c'.name = c.name)
    (hmeta : c'.metadata = c.metadata) (hfile : c'.shmFdWrite = c.shmFdWrite)
    (hpc : c.pc ≠ .returned) (hself : c'.Sound s) (hkept : c.complete → c'.complete)
    (hlinked : c.Linked → c'.Linked)
    (hmore : ∀ p ∈ more, p.call = i ∧ p.data = c'.metadata ++ [0] ∧
      c'.shmFdWrite = some p.file ∧ c'.complete) :
    Sound { s.put i c' with sent := s.sent ++ more } := by
  refine hs.put hi rfl hname hmeta hpc ?_ ?_ ?_ (fun h => ⟨hkept h, hfile⟩) ?_ ?_
  · exact hself.frame (fun _ => rfl) (fun _ _ => rfl)
  · exact fun j d _ _ hd => hd.frame (fun _ => rfl) (fun _ _ => rfl)
  · exact fun file h => .inl (hfile ▸ h)
  · intro name file h
    by_cases hn : name = c.name
    · subst hn
      exact .inl ⟨rfl, hlinked (hs.linked hi hpc h)⟩
    · exact .inr ⟨hn, h⟩
  · intro p hp
    obtain hp | hp := List.mem_append.mp hp
    · exact .inl hp
    · exact .inr (hmore p hp)

/-- A call moves on and keeps its name, its blob and its file: the files stay sound, since the
other calls do not see the difference. -/
theorem Sound.put_self {s : SharedFiles} {i : Nat} {c c' : SendCall} (hs : s.Sound)
    (hi : s.calls[i]? = some c) (hname : c'.name = c.name) (hmeta : c'.metadata = c.metadata)
    (hfile : c'.shmFdWrite = c.shmFdWrite) (hpc : c.pc ≠ .returned) (hself : c'.Sound s)
    (hkept : c.complete → c'.complete) (hlinked : c.Linked → c'.Linked) :
    (s.put i c').Sound := by
  have h := hs.proceed [] hi hname hmeta hfile hpc hself hkept hlinked (by simp)
  rwa [List.append_nil] at h

/-- `shm_open` has created the file.  It is a new one, so nobody else has it. -/
theorem Sound.create {s : SharedFiles} {i : Nat} {c : SendCall} (hs : s.Sound)
    (hi : s.calls[i]? = some c) (hpc : c.pc = .creating) :
    Sound { s.put i { c with pc := .writing, shmFdWrite := some s.files.length } with
      names := s.names.insert c.name s.files.length
      files := s.files ++ [[]] } := by
  have hc := hs.calls hi
  have hcomplete := hc.unwritten (.inl hpc)
  have hreturned : c.pc ≠ .returned := by simp [hpc]
  refine hs.put hi rfl rfl rfl hreturned ?_ ?_ ?_ ?_ ?_ (fun p hp => .inl hp)
  · exact {
      creating := by simp
      linked := fun _ => ⟨_, rfl, by simp⟩
      created := by simp
      empty := by simp
      unwritten := fun _ => hcomplete
      written := by simp
      contents := by simp [hcomplete]
      passed := fun file h => absurd h (hc.shmFdSend_ne hcomplete file) }
  · intro j d hji hj hd
    refine hd.frame (fun hlinked => ?_) (fun file hfile => ?_)
    · refine Finmap.lookup_insert_of_ne _ fun hname => hji ?_
      exact hs.apart hj hi hname hlinked.2 hreturned
    · exact List.getElem?_append_left (hd.created file hfile)
  · exact fun file h => .inr (Option.some.inj h).symm
  · simp [hcomplete]
  · intro name file h
    by_cases hn : name = c.name
    · exact .inl ⟨hn, by simp [SendCall.Linked]⟩
    · exact .inr ⟨hn, by simpa [Finmap.lookup_insert_of_ne _ hn] using h⟩

/-- `write` has written `n` bytes.  They go into the file of this call, which no other call has. -/
theorem Sound.write {s : SharedFiles} {i n file : Nat} {c : SendCall} {pc : SendPoint}
    {complete : Bool} (hs : s.Sound) (hi : s.calls[i]? = some c) (hwriting : c.pc = .writing)
    (hfile : c.shmFdWrite = some file) (hpc : pc = .opening ∨ pc = .failed)
    (hopening : pc = .opening → complete) (hall : complete → n = c.data.length) :
    Sound { s.put i { c with pc := pc, complete := complete } with
      files := s.files.modify file fun found => writeStart found (c.data.take n) } := by
  have hc := hs.calls hi
  have hcomplete := hc.unwritten (.inr hwriting)
  have hreturned : c.pc ≠ .returned := by simp [hwriting]
  refine hs.put hi rfl rfl rfl hreturned ?_ ?_ (fun other h => .inl h) (by simp [hcomplete]) ?_
    (fun p hp => .inl hp)
  · have hwrites : s.files[file]? = some [] := hc.empty hwriting file hfile
    have hlink := hc.linked ⟨by simp [hwriting], hreturned⟩
    exact {
      creating := by rintro rfl; simp at hpc
      linked := fun _ => hlink
      created := by simpa using hc.created
      empty := by rintro rfl; simp at hpc
      unwritten := by rintro (rfl | rfl) <;> simp at hpc
      written := by
        rintro left (rfl | rfl)
        · exact hopening rfl
        · simp at hpc
      contents := by
        intro h other hother
        obtain rfl : file = other := by simpa [hfile] using hother
        simp [hwrites, writeStart, hall h]
      passed := fun other h => absurd h (hc.shmFdSend_ne hcomplete other) }
  · intro j d hji hj hd
    refine hd.frame (fun _ => rfl) (fun other hother => ?_)
    have hne : file ≠ other := by
      rintro rfl
      exact hji (hs.distinct hj hi hother hfile)
    simp [hne]
  · intro name other h
    by_cases hn : name = c.name
    · exact .inl ⟨hn, by obtain rfl | rfl := hpc <;> simp [SendCall.Linked]⟩
    · exact .inr ⟨hn, h⟩

/-- `Send` takes the name away and returns.  What was passed on keeps its file. -/
theorem Sound.unlink {s : SharedFiles} {i : Nat} {c : SendCall} (hs : s.Sound)
    (hi : s.calls[i]? = some c) (hpc : c.pc = .sending [] ∨ c.pc = .failed) :
    Sound { s.put i { c with pc := .returned } with names := s.names.erase c.name } := by
  have hc := hs.calls hi
  have hreturned : c.pc ≠ .returned := by obtain hpc | hpc := hpc <;> simp [hpc]
  refine hs.put hi rfl rfl rfl hreturned ?_ ?_ (fun file h => .inl h) (fun h => ⟨h, rfl⟩) ?_
    (fun p hp => .inl hp)
  · refine (hc.moveTo .returned (by simp) (.inl rfl) (by simp)).frame ?_ (fun _ _ => rfl)
    exact fun h => absurd rfl h.2
  · intro j d hji hj hd
    refine hd.frame (fun hlinked => ?_) (fun _ _ => rfl)
    refine Finmap.lookup_erase_ne fun hname => hji ?_
    exact hs.apart hj hi hname hlinked.2 hreturned
  · intro name file h
    by_cases hn : name = c.name
    · subst hn
      simp at h
    · exact .inr ⟨hn, by simpa [Finmap.lookup_erase_ne hn] using h⟩

/-- `Send` is called with a name that is not in use, so that no other call can find its file under
it. -/
theorem Sound.call {s : SharedFiles} {name : String} {metadata data : List UInt8} (hs : s.Sound)
    (hfresh : s.Fresh (.call name metadata data)) :
    Sound { s with
      calls := s.calls ++ [{ name := name, metadata := metadata, data := data }] } := by
  have hcalls : ∀ {j d}, (s.calls ++ [{ name := name, metadata := metadata, data := data }])[j]? =
      some d → s.calls[j]? = some d ∨
        (j = s.calls.length ∧ d = { name := name, metadata := metadata, data := data }) := by
    intro j d h
    obtain hlt | hlt := lt_or_ge j s.calls.length
    · exact .inl (by rwa [List.getElem?_append_left hlt] at h)
    · rw [List.getElem?_append_right hlt, List.getElem?_singleton] at h
      split at h
      · exact .inr ⟨by omega, (Option.some.inj h).symm⟩
      · cases h
  have hnew : ∀ {j : Nat} {d : SendCall}, s.calls[j]? = some d → d.name = name →
      d.pc = .returned := fun hj hd => hfresh _ (List.mem_of_getElem? hj) hd
  refine {
    calls := ?_
    apart := ?_
    distinct := ?_
    owned := ?_
    sent := ?_ }
  · intro j d hj
    obtain hj | ⟨-, rfl⟩ := hcalls hj
    · exact (hs.calls hj).frame (fun _ => rfl) (fun _ _ => rfl)
    · exact {
        creating := by simp
        linked := fun h => absurd rfl h.1
        created := by simp
        empty := by simp
        unwritten := by simp
        written := by simp
        contents := by simp
        passed := by simp }
  · intro j k d e hj hk hnames hd he
    obtain hj | ⟨rfl, rfl⟩ := hcalls hj <;> obtain hk | ⟨rfl, rfl⟩ := hcalls hk
    · exact hs.apart hj hk hnames hd he
    · exact absurd (hnew hj hnames) hd
    · exact absurd (hnew hk hnames.symm) he
    · rfl
  · intro j k d e file hj hk hd he
    obtain hj | ⟨rfl, rfl⟩ := hcalls hj <;> obtain hk | ⟨rfl, rfl⟩ := hcalls hk
    · exact hs.distinct hj hk hd he
    · simp at he
    · simp at hd
    · rfl
  · intro other file h
    obtain ⟨d, hd, hname, hlinked⟩ := hs.owned h
    exact ⟨d, List.mem_append_left _ hd, hname, hlinked⟩
  · intro p hp
    obtain ⟨d, hd, h⟩ := hs.sent p hp
    exact ⟨d, by rwa [List.getElem?_append_left (List.getElem?_eq_some_iff.mp hd).1], h⟩

/-- **One system call.**  Each keeps the files sound.  `create` and `unlink` are the two that
touch the names, and `write` is the one that touches a file: it is the own one of the call,
which no other call has, since its name was not in use when it was drawn. -/
theorem Sound.act {s s' : SharedFiles} {i : Nat} {c : SendCall} {action : SendAction}
    (hs : s.Sound) (hi : s.calls[i]? = some c) (h : s.act i c action = some s') : s'.Sound := by
  have hc := hs.calls hi
  cases action with
  | create ok =>
      simp only [SharedFiles.act] at h
      split at h
      case isTrue => cases h
      case isFalse hpc =>
        rw [not_not] at hpc
        have hreturned : c.pc ≠ .returned := by simp [hpc]
        split at h
        case isTrue =>
          cases h
          have hself := hc.moveTo .returned (by simp) (.inl rfl) (by simp)
          exact hs.put_self hi rfl rfl rfl hreturned hself id (fun hl => absurd hpc hl.1)
        case isFalse =>
          split at h
          case h_1 file hfile => exact absurd hpc (hs.linked hi hreturned hfile).1
          case h_2 =>
            cases h
            exact hs.create hi hpc
  | write written =>
      simp only [SharedFiles.act] at h
      split at h
      case h_1 file hpc hfile =>
        have hreturned : c.pc ≠ .returned := by simp [hpc]
        have hlinked : c.Linked := ⟨by simp [hpc], hreturned⟩
        cases written with
        | none =>
            cases h
            have hself := hc.moveTo .failed (by simp) (.inr hlinked) (by simp)
            exact hs.put_self hi rfl rfl rfl hreturned hself id
              (fun _ => by simp [SendCall.Linked])
        | some n =>
            simp only at h
            split at h
            case isTrue => cases h
            case isFalse =>
              cases h
              split
              case isTrue hall =>
                exact hs.write hi hpc hfile (.inl rfl) (fun _ => rfl) (fun _ => hall)
              case isFalse =>
                exact hs.write hi hpc hfile (.inr rfl) (by simp)
                  (by simp [hc.unwritten (.inr hpc)])
      case h_2 => cases h
  | openAgain ok mClients =>
      simp only [SharedFiles.act] at h
      split at h
      case isTrue => cases h
      case isFalse hpc =>
        rw [not_not] at hpc
        cases h
        have hreturned : c.pc ≠ .returned := by simp [hpc]
        have hcomplete := hc.written [] (.inl hpc)
        have hlinked : c.Linked := ⟨by simp [hpc], hreturned⟩
        have hself := hc.moveTo (.sending mClients) (by simp) (.inr hlinked) fun _ _ => hcomplete
        obtain ⟨file, hfile, hname⟩ := hc.linked hlinked
        refine hs.put_self hi rfl rfl rfl hreturned { hself with passed := ?_ } id
          (fun _ => by simp [SendCall.Linked])
        intro other hother
        refine ⟨?_, hcomplete⟩
        cases ok with
        | false => simp at hother
        | true =>
            obtain rfl : file = other := by simpa [hname] using hother
            exact hfile
  | sendmsg ok =>
      simp only [SharedFiles.act] at h
      split at h
      case h_1 client left hpc =>
        have hreturned : c.pc ≠ .returned := by simp [hpc]
        have hcomplete := hc.written _ (.inr hpc)
        have hlinked : c.Linked := ⟨by simp [hpc], hreturned⟩
        have hself := hc.moveTo (.sending left) (by simp) (.inr hlinked) fun _ _ => hcomplete
        split at h
        case h_1 file hfd =>
          cases h
          refine hs.proceed _ hi rfl rfl rfl hreturned hself id
            (fun _ => by simp [SendCall.Linked]) ?_
          simp [(hc.passed file hfd).1, hcomplete]
        case h_2 =>
          cases h
          exact hs.put_self hi rfl rfl rfl hreturned hself id
            (fun _ => by simp [SendCall.Linked])
      case h_2 => cases h
  | unlink =>
      simp only [SharedFiles.act] at h
      split at h
      case isTrue hpc =>
        cases h
        exact hs.unlink hi hpc
      case isFalse => cases h

/-- A new call adds itself to those under way; that its name is not in use is what the guard is
for. -/
theorem Sound.step {s s' : SharedFiles} {event : FileEvent} (hs : s.Sound)
    (hfresh : s.Fresh event) (h : s.step event = some s') : s'.Sound := by
  cases event with
  | call name metadata data =>
      cases h
      exact hs.call hfresh
  | act i action =>
      obtain ⟨c, hi, hact⟩ := Option.bind_eq_some_iff.mp h
      exact hs.act hi hact

/-- And so the files are sound at any time. -/
theorem Sound.exec {events : List FileEvent} {s s' : SharedFiles} (hs : s.Sound)
    (hfresh : Along SharedFiles.step Fresh s events)
    (h : GuardedRuns.exec SharedFiles.step s events = some s') : s'.Sound :=
  exec_invariant (fun _ _ _ hs hf hstep => hs.step hf hstep) hs hfresh h

/-! ## What stays -/

/-- A packet is not taken back, and a call keeps its message. -/
structure Extends (s s' : SharedFiles) : Prop where
  sent : ∀ p ∈ s.sent, p ∈ s'.sent
  calls : ∀ {i : Nat} {c : SendCall}, s.calls[i]? = some c →
    ∃ c', s'.calls[i]? = some c' ∧ c'.message = c.message

/-- Nothing has happened. -/
theorem Extends.refl (s : SharedFiles) : Extends s s where
  sent _ hp := hp
  calls hi := ⟨_, hi, rfl⟩

/-- Two stretches of time, one after the other. -/
theorem Extends.trans {s₁ s₂ s₃ : SharedFiles} (h : Extends s₁ s₂) (h' : Extends s₂ s₃) :
    Extends s₁ s₃ where
  sent p hp := h'.sent p (h.sent p hp)
  calls hi := by
    obtain ⟨c, hc, hmessage⟩ := h.calls hi
    obtain ⟨c', hc', hmessage'⟩ := h'.calls hc
    exact ⟨c', hc', hmessage'.trans hmessage⟩

/-- A call that moves on keeps its message and takes back no packet. -/
theorem Extends.put {s s' : SharedFiles} {i : Nat} {c c' : SendCall}
    (hi : s.calls[i]? = some c) (hcalls : s'.calls = s.calls.set i c')
    (hmessage : c'.message = c.message) (hsent : s.sent <+: s'.sent) : Extends s s' where
  sent p hp := hsent.subset hp
  calls {j d} hj := by
    by_cases hij : j = i
    · subst hij
      obtain rfl : c = d := by simpa [hi] using hj
      exact ⟨c', by rw [hcalls, put_calls hi]; exact .inl ⟨rfl, rfl⟩, hmessage⟩
    · exact ⟨d, by rw [hcalls, put_calls hi]; exact .inr ⟨hij, hj⟩, rfl⟩

/-- No system call of a call of `Send` changes its message, and no packet is taken back. -/
theorem extends_of_act {s s' : SharedFiles} {i : Nat} {c : SendCall} {action : SendAction}
    (hi : s.calls[i]? = some c) (h : s.act i c action = some s') : Extends s s' := by
  cases action with
  | create ok =>
      simp only [SharedFiles.act] at h
      split at h
      · cases h
      split at h
      · cases h
        exact .put hi rfl rfl (List.prefix_refl _)
      split at h <;> cases h
      · exact .put hi rfl rfl (List.prefix_refl _)
      · exact .put hi rfl rfl (List.prefix_refl _)
  | write written =>
      simp only [SharedFiles.act] at h
      split at h
      case h_2 => cases h
      cases written with
      | none =>
          cases h
          exact .put hi rfl rfl (List.prefix_refl _)
      | some n =>
          simp only at h
          split at h
          · cases h
          · cases h
            exact .put hi rfl (by split <;> rfl) (List.prefix_refl _)
  | openAgain ok mClients =>
      simp only [SharedFiles.act] at h
      split at h <;> cases h
      exact .put hi rfl rfl (List.prefix_refl _)
  | sendmsg ok =>
      simp only [SharedFiles.act] at h
      split at h
      case h_2 => cases h
      split at h <;> cases h
      · exact .put hi rfl rfl (List.prefix_append _ _)
      · exact .put hi rfl rfl (List.prefix_refl _)
  | unlink =>
      simp only [SharedFiles.act] at h
      split at h <;> cases h
      exact .put hi rfl rfl (List.prefix_refl _)

/-- A new call leaves the others where they are. -/
theorem extends_of_step {s s' : SharedFiles} {event : FileEvent} (h : s.step event = some s') :
    Extends s s' := by
  cases event with
  | call name metadata data =>
      cases h
      refine { sent := fun p hp => hp, calls := fun {i c} hi => ⟨c, ?_, rfl⟩ }
      rwa [List.getElem?_append_left (List.getElem?_eq_some_iff.mp hi).1]
  | act i action =>
      obtain ⟨c, hi, hact⟩ := Option.bind_eq_some_iff.mp h
      exact extends_of_act hi hact

/-- What was passed on at one time of a run has been passed on at all later times. -/
theorem extends_of_exec {events : List FileEvent} {s s' : SharedFiles}
    (h : exec step s events = some s') : Extends s s' := by
  induction events generalizing s with
  | nil =>
      cases h
      exact .refl _
  | cons event events ih =>
      obtain ⟨s₁, hstep, hrest⟩ := Option.bind_eq_some_iff.mp h
      exact (extends_of_step hstep).trans (ih hrest)

/-! ## What the packets hold -/

/-- Where the files are sound, a packet that was passed on has the blob of the call behind it
that passed it on. -/
theorem Sound.found {s : SharedFiles} (hs : s.Sound) {p : SharedPacket} (hp : p ∈ s.sent) :
    ∃ c, s.calls[p.call]? = some c ∧ s.found p = some c.message.packet := by
  obtain ⟨c, hc, hdata, hfile, hcomplete⟩ := hs.sent p hp
  have hcontents := (hs.calls hc).contents hcomplete p.file hfile
  exact ⟨c, hc, by simp [SharedFiles.found, hcontents, hdata, BlobMessage.packet, SendCall.message]⟩

/-- **No two messages meet in a file.**  Where no name is drawn that is in use, a packet that
was passed on has its own message behind it at any time later, whatever the other calls do
in between, and a subscriber that receives it then gets this message. -/
theorem contents_kept {events later : List FileEvent} {s s' : SharedFiles} {p : SharedPacket}
    (hfresh : Along step Fresh {} events) (h : exec step {} events = some s)
    (hfresh' : Along step Fresh s later) (hlater : exec step s later = some s')
    (hp : p ∈ s.sent) :
    ∃ c, s.calls[p.call]? = some c ∧ s'.found p = some c.message.packet ∧
      ∀ (subscriber : Subscriber), subscriber.Ready → ∀ granted,
        (subscriber.receive (s'.found p) granted).2 = some (c.message.received granted) := by
  have hs : s.Sound := create_sound.exec hfresh h
  have hs' : s'.Sound := hs.exec hfresh' hlater
  have hextends := extends_of_exec hlater
  obtain ⟨c', hc', hfound⟩ := hs'.found (hextends.sent p hp)
  obtain ⟨c, hc, -⟩ := hs.sent p hp
  obtain ⟨d, hd, hmessage⟩ := hextends.calls hc
  obtain rfl : c' = d := Option.some.inj (hc'.symm.trans hd)
  rw [hmessage] at hfound
  refine ⟨c, hc, hfound, fun subscriber hready granted => ?_⟩
  rw [hfound]
  exact (hready.receive c.message granted).2

/-- Two calls on their way at a time, and then a third that draws the name of the first. -/
def threeCalls : List FileEvent × List FileEvent :=
  ([.call "QxzVwbTa" [116] [1, 2], .act 0 (.create true), .call "mKpLrYuc" [117] [3],
      .act 0 (.write (some 2)), .act 1 (.create true), .act 0 (.openAgain true [5]),
      .act 0 (.sendmsg true)],
    [.act 0 .unlink, .act 1 (.write (some 1)), .call "QxzVwbTa" [118] [4, 5, 6],
      .act 2 (.create true), .act 2 (.write (some 3))])

/-- The file of the first call is not the one that the third gets under the same name, since the
first has unlinked it in between. -/
theorem contents_kept_threeCalls :
    ∃ s s' p, exec step {} threeCalls.1 = some s ∧ exec step s threeCalls.2 = some s' ∧
      p ∈ s.sent ∧ s'.found p = some { data := [116, 0], file := [1, 2] } := by
  obtain ⟨s, hrun⟩ : ∃ s, exec step {} threeCalls.1 = some s := ⟨_, rfl⟩
  have hs : ∀ s ∈ exec step {} threeCalls.1, Along step Fresh s threeCalls.2 ∧
      (exec step s threeCalls.2).isSome ∧
      { call := 0, client := 5, data := [116, 0], file := 0 } ∈ s.sent ∧
      ∀ c ∈ s.calls[0]?, c.message.packet = { data := [116, 0], file := [1, 2] } := by
    decide
  obtain ⟨hfresh', hsome, hp, hpacket⟩ := hs s hrun
  obtain ⟨s', hlater⟩ := Option.isSome_iff_exists.mp hsome
  obtain ⟨c, hc, hfound, -⟩ := contents_kept (by decide) hrun hfresh' hlater hp
  exact ⟨s, s', _, hrun, hlater, hp, by rw [hfound, hpacket c hc]⟩

/-- Where two calls have drawn one name, the second writes into the file of the first. -/
example :
    (exec step {} [.call "QxzVwbTa" [116] [1, 2], .act 0 (.create true), .act 0 (.write (some 2)),
      .act 0 (.openAgain true [5]), .act 0 (.sendmsg true), .call "QxzVwbTa" [117] [3],
      .act 1 (.create true), .act 1 (.write (some 1))]).bind
        (fun s => s.sent.head?.bind s.found) = some { data := [116, 0], file := [3, 2] } := by
  decide

end SharedFiles

end IpcPubsub
