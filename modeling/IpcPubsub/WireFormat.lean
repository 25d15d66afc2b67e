import Mathlib

/-!
# Tagged records on the wire

A message is a sequence of records, each a field number with a value: a number,
written seven bits to a byte, or a string of bytes behind its length.  `written`
is the encoding and `readAll` the reader, which also returns the records it
decoded before it failed.

Reading undoes writing (`readAll_written`).  Of an encoding that was cut the
reader yields some of the first records and never the last one
(`readAll_truncated`).
-/

namespace WireFormat

/-! ## Numbers -/

/-- Seven bits to a byte, the low ones first; all but the last byte have the
high bit. -/
def varint (n : Nat) : List UInt8 :=
  if n / 128 = 0 then [UInt8.ofNat n]
  else UInt8.ofNat (128 + n % 128) :: varint (n / 128)
termination_by n
decreasing_by omega

/-- The number at the front and what follows it. -/
def readVarint : List UInt8 → Option (Nat × List UInt8)
  | [] => none
  | byte :: bytes =>
      if byte.toNat < 128 then some (byte.toNat, bytes)
      else (readVarint bytes).map fun r => (byte.toNat % 128 + 128 * r.1, r.2)

/-- A number is read back from its bytes, whatever follows: the last of them is the first without
the high bit. -/
theorem readVarint_varint (n : Nat) (rest : List UInt8) :
    readVarint (varint n ++ rest) = some (n, rest) := by
  fun_induction varint n with
  | case1 n hsmall =>
      have hbyte : (UInt8.ofNat n).toNat = n := by
        rw [UInt8.toNat_ofNat']
        omega
      rw [List.singleton_append, readVarint, hbyte, if_pos (by omega)]
  | case2 n hbig ih =>
      have hbyte : (UInt8.ofNat (128 + n % 128)).toNat = 128 + n % 128 := by
        rw [UInt8.toNat_ofNat']
        omega
      have hvalue : (128 + n % 128) % 128 + 128 * (n / 128) = n := by omega
      rw [List.cons_append, readVarint, hbyte, if_neg (by omega), ih, Option.map_some, hvalue]

/-- A number that was cut cannot be read, for all the bytes that are left have the high bit. -/
theorem readVarint_truncated {n : Nat} {cut more : List UInt8} (h : varint n = cut ++ more)
    (hmore : more ≠ []) : readVarint cut = none := by
  induction n using Nat.strongRecOn generalizing cut with
  | ind n ih =>
      rw [varint] at h
      cases cut with
      | nil => rfl
      | cons byte cut =>
          split at h
          · obtain ⟨_, hnil⟩ := List.cons.inj h
            exact absurd (List.append_eq_nil_iff.mp hnil.symm).2 hmore
          · rename_i hbig
            obtain ⟨rfl, htail⟩ := List.cons.inj h
            have hbyte : (UInt8.ofNat (128 + n % 128)).toNat = 128 + n % 128 := by
              rw [UInt8.toNat_ofNat']
              omega
            rw [readVarint, hbyte, if_neg (by omega), ih (n / 128) (by omega) htail,
              Option.map_none]

/-- Zero takes a byte too. -/
theorem length_varint_pos (n : Nat) : 0 < (varint n).length := by
  rw [varint]
  split <;> simp

/-! ## Records -/

inductive Value
  | number (n : Nat)
  | bytes (content : List UInt8)
  deriving DecidableEq

/-- A field number with a value. -/
structure Record where
  field : Nat
  value : Value
  deriving DecidableEq

/-- The low three bits of a tag say how the value is written. -/
def Record.written (r : Record) : List UInt8 :=
  match r.value with
  | .number n => varint (8 * r.field) ++ varint n
  | .bytes content => varint (8 * r.field + 2) ++ (varint content.length ++ content)

/-- The value a tag announces. -/
def readValue (kind : Nat) (bytes : List UInt8) : Option (Value × List UInt8) :=
  if kind = 0 then (readVarint bytes).map fun r => (.number r.1, r.2)
  else if kind = 2 then
    (readVarint bytes).bind fun r =>
      if r.1 ≤ r.2.length then some (.bytes (r.2.take r.1), r.2.drop r.1) else none
  else none

/-- The record at the front and what follows it. -/
def readRecord (bytes : List UInt8) : Option (Record × List UInt8) :=
  (readVarint bytes).bind fun tag =>
    (readValue (tag.1 % 8) tag.2).map fun r => ({ field := tag.1 / 8, value := r.1 }, r.2)

/-- A record is read back from its bytes, whatever follows. -/
theorem readRecord_written (r : Record) (rest : List UInt8) :
    readRecord (r.written ++ rest) = some (r, rest) := by
  obtain ⟨field, value⟩ := r
  cases value with
  | number n =>
      have hkind : 8 * field % 8 = 0 := by omega
      have hfield : 8 * field / 8 = field := by omega
      simp only [Record.written, List.append_assoc, readRecord, readVarint_varint,
        Option.bind_some, readValue, hkind, hfield, if_true, Option.map_some]
  | bytes content =>
      have hkind : (8 * field + 2) % 8 = 2 := by omega
      have hfield : (8 * field + 2) / 8 = field := by omega
      have hlength : content.length ≤ (content ++ rest).length := by simp
      simp only [Record.written, List.append_assoc, readRecord, readVarint_varint,
        Option.bind_some, readValue, hkind, hfield, if_pos hlength, List.take_left,
        List.drop_left, OfNat.ofNat_ne_zero, if_false, if_true, Option.map_some]

/-- A value that was cut cannot be read: its length does not parse, or promises more than is
there. -/
theorem readValue_truncated {content cut more : List UInt8}
    (h : varint content.length ++ content = cut ++ more) (hmore : more ≠ []) :
    readValue 2 cut = none := by
  have hread : readValue 2 cut = (readVarint cut).bind fun r =>
      if r.1 ≤ r.2.length then some (.bytes (r.2.take r.1), r.2.drop r.1) else none := rfl
  rw [hread]
  rcases List.append_eq_append_iff.mp h with ⟨inside, hcut, hcontent⟩ | ⟨inside, hnumber, hrest⟩
  · have hshort : ¬ content.length ≤ inside.length := by
      have hpos := List.length_pos_iff.mpr hmore
      rw [hcontent, List.length_append]
      omega
    rw [hcut, readVarint_varint, Option.bind_some, if_neg hshort]
  · cases inside with
    | nil =>
        have hshort : ¬ content.length ≤ ([] : List UInt8).length := by
          have hpos := List.length_pos_iff.mpr hmore
          rw [List.nil_append] at hrest
          rw [← hrest, List.length_nil]
          omega
        rw [List.append_nil] at hnumber
        rw [← hnumber, ← List.append_nil (varint content.length), readVarint_varint,
          Option.bind_some, if_neg hshort]
    | cons byte inside =>
        rw [readVarint_truncated hnumber (List.cons_ne_nil _ _), Option.bind_none]

/-- A record that was cut cannot be read, be the cut in its tag or in its value. -/
theorem readRecord_truncated {r : Record} {cut more : List UInt8} (h : r.written = cut ++ more)
    (hmore : more ≠ []) : readRecord cut = none := by
  obtain ⟨field, value⟩ := r
  obtain ⟨kind, payload, hkind, hwritten, hpayload⟩ : ∃ kind payload, kind < 8 ∧
      Record.written ⟨field, value⟩ = varint (8 * field + kind) ++ payload ∧
      ∀ inside, payload = inside ++ more → readValue kind inside = none := by
    cases value with
    | number n =>
        refine ⟨0, varint n, by omega, rfl, fun inside hinside => ?_⟩
        simp only [readValue, if_true, readVarint_truncated hinside hmore, Option.map_none]
    | bytes content =>
        exact ⟨2, varint content.length ++ content, by omega, rfl,
          fun inside hinside => readValue_truncated hinside hmore⟩
  have htag : (8 * field + kind) % 8 = kind := by omega
  rw [hwritten] at h
  rcases List.append_eq_append_iff.mp h with ⟨inside, rfl, hinside⟩ | ⟨inside, hnumber, hrest⟩
  · rw [readRecord, readVarint_varint, Option.bind_some, htag, hpayload inside hinside,
      Option.map_none]
  · cases inside with
    | nil =>
        rw [List.append_nil] at hnumber
        rw [List.nil_append] at hrest
        rw [← hnumber, ← List.append_nil (varint _), readRecord, readVarint_varint,
          Option.bind_some, htag, hpayload [] hrest.symm, Option.map_none]
    | cons byte inside =>
        rw [readRecord, readVarint_truncated hnumber (List.cons_ne_nil _ _), Option.bind_none]

/-! ## Messages -/

def written (records : List Record) : List UInt8 :=
  records.flatMap Record.written

/-- The records decoded in at most `fuel` rounds, and whether that was all. -/
def readWithin : Nat → List UInt8 → List Record × Bool
  | _, [] => ([], true)
  | 0, _ :: _ => ([], false)
  | fuel + 1, byte :: bytes =>
      match readRecord (byte :: bytes) with
      | none => ([], false)
      | some (r, rest) =>
          let s := readWithin fuel rest
          (r :: s.1, s.2)

/-- The records decoded until the bytes end or reading fails, and whether all
bytes were read.  A record takes at least a byte. -/
def readAll (bytes : List UInt8) : List Record × Bool :=
  readWithin bytes.length bytes

/-- What is left after at most `fuel` rounds. -/
def unreadWithin : Nat → List UInt8 → List UInt8
  | _, [] => []
  | 0, bytes => bytes
  | fuel + 1, byte :: bytes =>
      match readRecord (byte :: bytes) with
      | none => byte :: bytes
      | some (_, rest) => unreadWithin fuel rest

/-- The bytes from the record on that could not be read. -/
def unread (bytes : List UInt8) : List UInt8 :=
  unreadWithin bytes.length bytes

/-- Every record has a tag. -/
theorem Record.length_written_pos (r : Record) : 0 < r.written.length := by
  obtain ⟨field, value⟩ := r
  cases value with
  | number n =>
      have := length_varint_pos (8 * field)
      simp only [Record.written, List.length_append]
      omega
  | bytes content =>
      have := length_varint_pos (8 * field + 2)
      simp only [Record.written, List.length_append]
      omega

/-- A record is read, and then the rest with what is left of the fuel. -/
theorem readWithin_cons {fuel : Nat} (r : Record) (rest : List UInt8) :
    readWithin (fuel + 1) (r.written ++ rest) =
      (r :: (readWithin fuel rest).1, (readWithin fuel rest).2) := by
  have hread := readRecord_written r rest
  cases hbytes : r.written ++ rest with
  | nil =>
      have hpos := r.length_written_pos
      rw [(List.append_eq_nil_iff.mp hbytes).1] at hpos
      cases hpos
  | cons byte bytes =>
      rw [hbytes] at hread
      simp only [readWithin, hread]

/-- **Reading undoes writing,** record by record and to the last byte. -/
theorem readAll_written (records : List Record) : readAll (written records) = (records, true) := by
  suffices h : ∀ fuel, (written records).length ≤ fuel →
      readWithin fuel (written records) = (records, true) from h _ (le_refl _)
  induction records with
  | nil =>
      intro fuel _
      cases fuel <;> rfl
  | cons r records ih =>
      intro fuel hfuel
      have hpos := r.length_written_pos
      rw [written, List.flatMap_cons, List.length_append] at hfuel
      cases fuel with
      | zero => omega
      | succ fuel =>
          have htail := ih fuel (by rw [written]; omega)
          rw [written] at htail
          rw [written, List.flatMap_cons, readWithin_cons, htail]

/-- **Of a cut message some first records are read, never the last one.** -/
theorem readAll_truncated {records : List Record} {cut more : List UInt8}
    (h : written records = cut ++ more) (hmore : more ≠ []) :
    ∃ n < records.length, (readAll cut).1 = records.take n := by
  suffices hfuel : ∀ fuel, cut.length ≤ fuel →
      ∃ n < records.length, (readWithin fuel cut).1 = records.take n from hfuel _ (le_refl _)
  induction records generalizing cut with
  | nil => exact absurd (List.append_eq_nil_iff.mp h.symm).2 hmore
  | cons r records ih =>
      intro fuel hfuel
      have hnone : readRecord cut = none → (readWithin fuel cut).1 = [] := by
        intro hfail
        cases cut with
        | nil => cases fuel <;> rfl
        | cons byte cut =>
            cases fuel with
            | zero => rfl
            | succ fuel => simp only [readWithin, hfail]
      have hread : ∀ inside, cut = r.written ++ inside → written records = inside ++ more →
          ∃ n < (r :: records).length, (readWithin fuel cut).1 = (r :: records).take n := by
        intro inside hcut hinside
        have hpos := r.length_written_pos
        rw [hcut, List.length_append] at hfuel
        cases fuel with
        | zero => omega
        | succ fuel =>
            obtain ⟨n, hn, htake⟩ := ih hinside fuel (by omega)
            refine ⟨n + 1, by simpa using hn, ?_⟩
            rw [hcut, readWithin_cons, htake, List.take_succ_cons]
      rw [written, List.flatMap_cons] at h
      rcases List.append_eq_append_iff.mp h with ⟨inside, hcut, hinside⟩ | ⟨inside, hcut, hinside⟩
      · exact hread inside hcut hinside
      · cases inside with
        | nil =>
            rw [List.append_nil] at hcut
            rw [List.nil_append] at hinside
            exact hread [] (by rw [hcut, List.append_nil]) hinside.symm
        | cons byte inside =>
            refine ⟨0, by simp, ?_⟩
            rw [hnone (readRecord_truncated hcut (List.cons_ne_nil _ _)), List.take_zero]

/-! ## Sizes -/

/-- A number takes a byte for every seven bits. -/
theorem length_varint_le {n k : Nat} (hk : 0 < k) (h : n < 128 ^ k) : (varint n).length ≤ k := by
  induction k generalizing n with
  | zero => omega
  | succ k ih =>
      rw [varint]
      split
      · simp
      · rename_i hbig
        have hk' : 0 < k := by
          by_contra hzero
          obtain rfl : k = 0 := by omega
          rw [Nat.zero_add, pow_one] at h
          omega
        have hrest : n / 128 < 128 ^ k := by
          rw [pow_succ] at h
          omega
        have := ih hk' hrest
        rw [List.length_cons]
        omega

/-- A record with a number takes one byte more, for its tag. -/
theorem length_number_le {field n k : Nat} (hfield : field < 16) (hk : 0 < k) (h : n < 128 ^ k) :
    (Record.written { field := field, value := .number n }).length ≤ k + 1 := by
  have htag := length_varint_le (n := 8 * field) Nat.one_pos (by omega)
  have hnumber := length_varint_le hk h
  simp only [Record.written, List.length_append]
  omega

/-- A record with bytes takes its tag and its length on top of them. -/
theorem length_bytes_le {field k : Nat} {content : List UInt8} (hfield : field < 16) (hk : 0 < k)
    (h : content.length < 128 ^ k) :
    (Record.written { field := field, value := .bytes content }).length ≤
      content.length + (k + 1) := by
  have htag := length_varint_le (n := 8 * field + 2) Nat.one_pos (by omega)
  have hlength := length_varint_le hk h
  simp only [Record.written, List.length_append]
  omega

/-- Messages are concatenated record by record. -/
theorem written_append (records more : List Record) :
    written (records ++ more) = written records ++ written more :=
  List.flatMap_append ..

/-- The bytes of one record. -/
theorem written_singleton (r : Record) : written [r] = r.written := by
  rw [written, List.flatMap_singleton]

end WireFormat
