import Mathlib

/-!
# 64-bit words in order

`UInt64` with its own comparison is a linear order, so the order lemmas of the
library apply to sequence numbers.  The successor wraps to zero at the largest
word; below it, it is the successor of the order.
-/

namespace WordOrder

instance linearOrder : LinearOrder UInt64 where
  le_refl := UInt64.le_refl
  le_trans _ _ _ := UInt64.le_trans
  le_antisymm _ _ := UInt64.le_antisymm
  le_total := UInt64.le_total
  lt_iff_le_not_ge a b := by
    rw [UInt64.not_le]
    exact ⟨fun h => ⟨UInt64.le_of_lt h, h⟩, fun h => h.2⟩
  toDecidableLE := inferInstance
  toDecidableEq := inferInstance
  toDecidableLT := inferInstance

/-- The largest word, `2 ^ 64 - 1`. -/
def maxWord : UInt64 := 18446744073709551615

/-- No word is beyond the last one. -/
theorem le_maxWord (w : UInt64) : w ≤ maxWord := by
  have := w.toNat_lt
  rw [UInt64.le_iff_toNat_le]
  change w.toNat ≤ 18446744073709551615
  omega

/-- To add one does not wrap but at the last word. -/
theorem toNat_add_one {w : UInt64} (h : w ≠ maxWord) : (w + 1).toNat = w.toNat + 1 := by
  have hlt : w < maxWord := lt_of_le_of_ne (le_maxWord w) h
  have hnat : w.toNat < 18446744073709551615 := UInt64.lt_iff_toNat_lt.mp hlt
  rw [UInt64.toNat_add, UInt64.toNat_one]
  omega

/-- The same, told by the number. -/
theorem toNat_add_one_of_lt {w : UInt64} (h : w.toNat + 1 < 2 ^ 64) :
    (w + 1).toNat = w.toNat + 1 := by
  refine toNat_add_one ?_
  intro heq
  have hmax : w.toNat = 18446744073709551615 := by rw [heq]; rfl
  omega

/-- Below the largest word the successor does not wrap. -/
theorem lt_add_one {w : UInt64} (h : w ≠ maxWord) : w < w + 1 := by
  rw [UInt64.lt_iff_toNat_lt, toNat_add_one h]
  omega

/-- Nothing is between a word and the next. -/
theorem lt_add_one_iff {v w : UInt64} (h : w ≠ maxWord) : v < w + 1 ↔ v ≤ w := by
  rw [UInt64.lt_iff_toNat_lt, UInt64.le_iff_toNat_le, toNat_add_one h]
  omega

/-- A word is beyond zero unless it is zero. -/
theorem word_pos_iff {w : UInt64} : 0 < w ↔ w ≠ 0 := by
  rw [UInt64.lt_iff_toNat_lt, Ne, ← UInt64.toNat_inj, UInt64.toNat_zero]
  omega

/-- No word is before zero. -/
theorem zero_le_word (w : UInt64) : 0 ≤ w := by
  rw [UInt64.le_iff_toNat_le, UInt64.toNat_zero]
  omega

instance orderBot : OrderBot UInt64 where
  bot := 0
  bot_le := zero_le_word

/-! ## Counting -/

/-- The first `n` words from `w` on, as a counter yields them. -/
def wordsFrom : UInt64 → Nat → List UInt64
  | _, 0 => []
  | w, n + 1 => w :: wordsFrom (w + 1) n

/-- The counter after `n` steps from `w`. -/
def wordAfter : UInt64 → Nat → UInt64
  | w, 0 => w
  | w, n + 1 => wordAfter (w + 1) n

/-- There are as many words as were asked for. -/
@[simp] theorem length_wordsFrom (w : UInt64) (n : Nat) : (wordsFrom w n).length = n := by
  induction n generalizing w with
  | zero => rfl
  | succ n ih => rw [wordsFrom, List.length_cons, ih]

/-- So many words on, as long as that does not wrap. -/
theorem toNat_wordAfter {w : UInt64} {n : Nat} (h : w.toNat + n < 2 ^ 64) :
    (wordAfter w n).toNat = w.toNat + n := by
  induction n generalizing w with
  | zero => rfl
  | succ n ih =>
      have hnext := @toNat_add_one_of_lt w (by omega)
      rw [wordAfter, ih (by omega)]
      omega

/-- A counter that does not wrap yields the words from `w` up to where it stops. -/
theorem mem_wordsFrom {v w : UInt64} {n : Nat} (h : w.toNat + n < 2 ^ 64)
    (hmem : v ∈ wordsFrom w n) : w ≤ v ∧ v < wordAfter w n := by
  induction n generalizing w with
  | zero => cases hmem
  | succ n ih =>
      have hnext := @toNat_add_one_of_lt w (by omega)
      have hafter := toNat_wordAfter h
      rcases List.mem_cons.mp hmem with rfl | hmem
      · refine ⟨le_refl v, ?_⟩
        rw [UInt64.lt_iff_toNat_lt, hafter]
        omega
      · obtain ⟨hle, hlt⟩ := ih (by omega) hmem
        refine ⟨?_, hlt⟩
        rw [UInt64.le_iff_toNat_le] at hle ⊢
        omega

/-- A counter that does not wrap yields no word twice. -/
theorem nodup_wordsFrom {w : UInt64} {n : Nat} (h : w.toNat + n < 2 ^ 64) :
    (wordsFrom w n).Nodup := by
  induction n generalizing w with
  | zero => exact List.nodup_nil
  | succ n ih =>
      have hnext := @toNat_add_one_of_lt w (by omega)
      refine List.nodup_cons.mpr ⟨fun hmem => ?_, ih (by omega)⟩
      have hle := (mem_wordsFrom (by omega) hmem).1
      rw [UInt64.le_iff_toNat_le] at hle
      omega

/-- A counter that reaches `2 ^ 64` yields zero or stops at it. -/
theorem zero_of_wordsFrom {w : UInt64} {n : Nat} (hw : w ≠ 0) (h : 2 ^ 64 ≤ w.toNat + n) :
    0 ∈ wordsFrom w n ∨ wordAfter w n = 0 := by
  induction n generalizing w with
  | zero =>
      have := w.toNat_lt
      omega
  | succ n ih =>
      by_cases hmax : w = maxWord
      · subst hmax
        cases n with
        | zero => exact Or.inr rfl
        | succ n => exact Or.inl (List.mem_cons_of_mem _ List.mem_cons_self)
      · have hnext := toNat_add_one hmax
        have hne : w + 1 ≠ 0 := by
          intro hzero
          rw [hzero, UInt64.toNat_zero] at hnext
          omega
        exact (ih hne (by omega)).imp_left (List.mem_cons_of_mem _)

end WordOrder
