import Mathlib

/-!
# Binary search for the first position that is not before a value

`lowerBound before xs` is the half-interval search of a C++ standard library:
it keeps a position `first` and a length `len`, compares the middle element,
and keeps one half.  On any list at all the result is a position of the list
or its end (`lowerBound_le_length`).

When the list is partitioned by `before` (every element that is before the
sought value stands in front of every element that is not) the search finds
the partition point, which `lowerBound_eq_findIdx` states against the linear
search of the library.  Everything else is read off that equation:
`lowerBound_eq_length_iff`, and `insertIdx_lowerBound` for an insertion at the
point.
-/

namespace LowerBound

variable {α : Type*} (before : α → Bool) (xs : List α)

/-- The loop of the search: `len` elements from position `first` on are still
undecided.  The first argument bounds the number of rounds; `len` rounds always
suffice. -/
def search : Nat → Nat → Nat → Nat
  | 0, first, _ => first
  | rounds + 1, first, len =>
      if len = 0 then first
      else
        match xs[first + len / 2]? with
        | none => first
        | some middle =>
            if before middle then
              search rounds (first + len / 2 + 1) (len - len / 2 - 1)
            else search rounds first (len / 2)

/-- First position whose element is not before the sought value. -/
def lowerBound : Nat :=
  search before xs xs.length 0 xs.length

/-- Elements before the sought value stand in front of those that are not. -/
def Partitioned : Prop :=
  xs.Pairwise fun x y => before y = true → before x = true

/-- The search never runs past the undecided part, however many rounds it is given. -/
theorem search_le (rounds first len : Nat) :
    search before xs rounds first len ≤ first + len := by
  induction rounds generalizing first len with
  | zero => simp [search]
  | succ rounds ih =>
      unfold search
      split
      · omega
      · split
        · omega
        · split
          · have := ih (first + len / 2 + 1) (len - len / 2 - 1)
            omega
          · have := ih first (len / 2)
            omega

/-- The search ends within the list. -/
theorem lowerBound_le_length : lowerBound before xs ≤ xs.length := by
  simpa [lowerBound] using search_le before xs xs.length 0 xs.length

variable {before xs}

/-- In a partitioned list the middle element decides for everything on its
side. -/
theorem Partitioned.before_of_le (h : Partitioned before xs) {i j : Nat}
    (hi : i < xs.length) (hij : i ≤ j) (hj : j < xs.length)
    (hb : before xs[j] = true) :
    before xs[i] = true := by
  rcases Nat.lt_or_eq_of_le hij with hlt | rfl
  · exact List.pairwise_iff_getElem.mp h i j hi hj hlt hb
  · exact hb

/-- The search keeps its position between the elements known to be before the
value and those known not to be. -/
theorem search_spec (h : Partitioned before xs) :
    ∀ (rounds first len : Nat), len ≤ rounds → first + len ≤ xs.length →
      (∀ i (hi : i < xs.length), i < first → before xs[i] = true) →
      (∀ i (hi : i < xs.length), first + len ≤ i → before xs[i] = false) →
      (∀ i (hi : i < xs.length), i < search before xs rounds first len →
        before xs[i] = true) ∧
      (∀ i (hi : i < xs.length), search before xs rounds first len ≤ i →
        before xs[i] = false) := by
  intro rounds
  induction rounds with
  | zero =>
      intro first len hlen _ hlo hhi
      have : len = 0 := by omega
      subst this
      exact ⟨hlo, fun i hi hle => hhi i hi (by simpa [search] using hle)⟩
  | succ rounds ih =>
      intro first len hlen hbound hlo hhi
      unfold search
      split
      · rename_i hzero
        subst hzero
        exact ⟨hlo, fun i hi hle => hhi i hi (by simpa using hle)⟩
      · rename_i hpos
        have hmid : first + len / 2 < xs.length := by omega
        rw [List.getElem?_eq_getElem hmid]
        dsimp only
        split
        · rename_i hb
          refine ih _ _ (by omega) (by omega) ?_ ?_
          · intro i hi hlt
            exact h.before_of_le hi (by omega) hmid hb
          · intro i hi hle
            exact hhi i hi (by omega)
        · rename_i hb
          refine ih _ _ (by omega) (by omega) hlo ?_
          intro i hi hle
          apply Bool.eq_false_iff.mpr
          intro hbi
          exact hb (h.before_of_le hmid hle hi hbi)

/-- **The search finds the partition point,** the first element that is not before, if there is
one. -/
theorem lowerBound_eq_findIdx (h : Partitioned before xs) :
    lowerBound before xs = xs.findIdx fun x => !before x := by
  obtain ⟨hlo, hhi⟩ := search_spec h xs.length 0 xs.length (Nat.le_refl _)
    (by omega) (fun i _ hlt => absurd hlt (Nat.not_lt_zero i))
    (fun i hi hle => absurd hi (by omega))
  have hle : lowerBound before xs ≤ xs.length := lowerBound_le_length before xs
  apply Nat.le_antisymm
  · apply Nat.le_of_not_lt
    intro hlt
    have hmem := List.findIdx_getElem (w := Nat.lt_of_lt_of_le hlt hle)
    have hbefore := hlo _ (Nat.lt_of_lt_of_le hlt hle) hlt
    simp [hbefore] at hmem
  · apply Nat.le_of_not_lt
    intro hlt
    have hnot := List.not_of_lt_findIdx hlt
    have hpast := hhi (lowerBound before xs)
      (Nat.lt_of_lt_of_le hlt List.findIdx_le_length) (Nat.le_refl _)
    simp [hpast] at hnot

/-- The search runs to the end exactly when every element is before the sought
value. -/
theorem lowerBound_eq_length_iff (h : Partitioned before xs) :
    lowerBound before xs = xs.length ↔ ∀ x ∈ xs, before x = true := by
  rw [lowerBound_eq_findIdx h, List.findIdx_eq_length]
  simp

/-- An insertion at the point the search finds comes behind all that is before and ahead of the
rest. -/
theorem Partitioned.insertIdx_lowerBound (h : Partitioned before xs) (x : α) :
    xs.insertIdx (lowerBound before xs) x =
      xs.filter before ++ x :: xs.filter fun y => !before y := by
  rw [lowerBound_eq_findIdx h]
  induction xs with
  | nil => rfl
  | cons y ys ih =>
      obtain ⟨hy, hys⟩ := List.pairwise_cons.mp h
      cases hbefore : before y with
      | true =>
          simp [List.findIdx_cons, hbefore, ih hys]
      | false =>
          have hnone : ∀ z ∈ ys, before z = false := by
            intro z hz
            apply Bool.eq_false_iff.mpr
            intro hb
            have := hy z hz hb
            rw [hbefore] at this
            cases this
          have hleft : ys.filter before = [] := List.filter_eq_nil_iff.mpr (by simpa using hnone)
          have hright : (ys.filter fun z => !before z) = ys :=
            List.filter_eq_self.mpr (by simpa using hnone)
          simp [List.findIdx_cons, hbefore, hleft, hright]

/-- The two sides of a partitioned list in their order are the list itself. -/
theorem Partitioned.filter_append_filter (h : Partitioned before xs) :
    (xs.filter before ++ xs.filter fun y => !before y) = xs := by
  induction xs with
  | nil => rfl
  | cons y ys ih =>
      obtain ⟨hy, hys⟩ := List.pairwise_cons.mp h
      cases hbefore : before y with
      | true => simp [hbefore, ih hys]
      | false =>
          have hleft : ys.filter before = [] := by
            refine List.filter_eq_nil_iff.mpr fun z hz hb => ?_
            rw [hy z hz hb] at hbefore
            cases hbefore
          have hrest := ih hys
          rw [hleft, List.nil_append] at hrest
          simp [hbefore, hleft, hrest]

end LowerBound
