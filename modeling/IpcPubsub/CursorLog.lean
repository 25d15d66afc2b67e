import Mathlib

/-!
# A log and its subscribers' cursors

A log is a list of entries with a key.  A subscriber is known by its **mark**,
the largest key it has been handed: `catchUp` walks the whole log, hands over
every entry whose key is past the mark, and moves the mark along.

The subscriber is `UpToDate` when all of the log has been handed over, in
strictly increasing key order and never past the mark.  `UpToDate.advance` is
the one fact the pattern rests on: a log may lose any of its old entries and
gain new ones, and catching up hands over exactly the new ones as long as their
keys increase and are past the mark.
-/

namespace CursorLog

variable {α κ : Type*} [LinearOrder κ] (key : α → κ)

/-- Hand over the entries past the mark, moving the mark. -/
def catchUp : κ → List α → List α × κ
  | mark, [] => ([], mark)
  | mark, x :: xs =>
      if mark < key x then
        (x :: (catchUp (key x) xs).1, (catchUp (key x) xs).2)
      else catchUp mark xs

/-- Keys increase strictly along the list. -/
def Increasing (xs : List α) : Prop :=
  xs.Pairwise fun x y => key x < key y

instance (xs : List α) : Decidable (Increasing key xs) :=
  inferInstanceAs (Decidable (xs.Pairwise fun x y => key x < key y))

variable {key}

/-- There is nothing to catch up with. -/
@[simp] theorem catchUp_nil (mark : κ) : catchUp key mark [] = ([], mark) := rfl

/-- Entries with growing keys are different. -/
theorem Increasing.nodup {xs : List α} (h : Increasing key xs) : xs.Nodup := by
  refine List.Pairwise.imp ?_ h
  intro x y hxy heq
  exact absurd (heq ▸ hxy) (lt_irrefl _)

/-- A key names one entry. -/
theorem Increasing.eq_of_key_eq {xs : List α} (h : Increasing key xs) {x y : α} (hx : x ∈ xs)
    (hy : y ∈ xs) (heq : key x = key y) : x = y := by
  induction xs with
  | nil => cases hx
  | cons z zs ih =>
      obtain ⟨hz, hzs⟩ := List.pairwise_cons.mp h
      rcases List.mem_cons.mp hx with rfl | hx' <;> rcases List.mem_cons.mp hy with rfl | hy'
      · rfl
      · exact absurd heq (ne_of_lt (hz y hy'))
      · exact absurd heq (ne_of_gt (hz x hx'))
      · exact ih hzs hx' hy'

/-- Increasing lists with the same entries are the same. -/
theorem Increasing.ext {xs ys : List α} (hx : Increasing key xs) (hy : Increasing key ys)
    (hmem : ∀ x, x ∈ xs ↔ x ∈ ys) : xs = ys := by
  have hperm := (List.perm_ext_iff_of_nodup hx.nodup hy.nodup).mpr hmem
  exact hperm.eq_of_pairwise (fun x y _ _ hxy hyx => absurd hyx (lt_asymm hxy)) hx hy

/-- New entries in increasing order past the mark are all handed over. -/
theorem catchUp_of_increasing {mark : κ} {new : List α}
    (hinc : Increasing key new) (h : ∀ x ∈ new, mark < key x) :
    (catchUp key mark new).1 = new := by
  induction new generalizing mark with
  | nil => rfl
  | cons x xs ih =>
      have hx : mark < key x := h x List.mem_cons_self
      have htail := ih hinc.of_cons fun _ hy => List.rel_of_pairwise_cons hinc hy
      simp only [catchUp, if_pos hx, htail]

/-- Catching up never moves the mark back. -/
theorem le_catchUp_mark (mark : κ) (log : List α) : mark ≤ (catchUp key mark log).2 := by
  induction log generalizing mark with
  | nil => exact le_refl _
  | cons x xs ih =>
      unfold catchUp
      split
      · rename_i hx
        exact le_trans (le_of_lt hx) (ih (key x))
      · exact ih mark

/-- After catching up no entry of the log is past the mark. -/
theorem le_catchUp_mark_of_mem {mark : κ} {log : List α} {x : α} (hx : x ∈ log) :
    key x ≤ (catchUp key mark log).2 := by
  induction log generalizing mark with
  | nil => cases hx
  | cons y ys ih =>
      unfold catchUp
      rcases List.mem_cons.mp hx with rfl | hmem
      · split
        · exact le_catchUp_mark (key x) ys
        · rename_i hle
          exact le_trans (not_lt.mp hle) (le_catchUp_mark mark ys)
      · split
        · exact ih hmem
        · exact ih hmem

/-- A subscriber that has everything is handed nothing. -/
theorem catchUp_of_le {mark : κ} {log : List α} (h : ∀ x ∈ log, key x ≤ mark) :
    catchUp key mark log = ([], mark) := by
  induction log with
  | nil => rfl
  | cons x xs ih =>
      have hx : ¬ mark < key x := not_lt.mpr (h x List.mem_cons_self)
      rw [catchUp, if_neg hx]
      exact ih fun y hy => h y (List.mem_cons_of_mem _ hy)

/-- The mark stays or becomes the key of an entry handed over. -/
theorem catchUp_mark_eq (key : α → κ) (mark : κ) (log : List α) :
    (catchUp key mark log).2 = mark ∨
      ∃ x ∈ (catchUp key mark log).1, key x = (catchUp key mark log).2 := by
  induction log generalizing mark with
  | nil => exact Or.inl rfl
  | cons x xs ih =>
      unfold catchUp
      split
      · rcases ih (key x) with h | ⟨y, hy, hk⟩
        · exact Or.inr ⟨x, List.mem_cons_self, h.symm⟩
        · exact Or.inr ⟨y, List.mem_cons_of_mem _ hy, hk⟩
      · exact ih mark

/-- A subscriber that is handed nothing has everything. -/
theorem le_mark_of_catchUp_nil {mark : κ} {log : List α} (h : (catchUp key mark log).1 = [])
    {x : α} (hx : x ∈ log) : key x ≤ mark := by
  rcases catchUp_mark_eq key mark log with hmark | ⟨y, hy, _⟩
  · exact hmark ▸ le_catchUp_mark_of_mem hx
  · rw [h] at hy
    cases hy

/-- Only entries of the log past the mark are handed over, for each of them was past the mark of
its moment, which never falls. -/
theorem mem_catchUp {mark : κ} {log : List α} {x : α}
    (hx : x ∈ (catchUp key mark log).1) : x ∈ log ∧ mark < key x := by
  induction log generalizing mark with
  | nil => cases hx
  | cons y ys ih =>
      unfold catchUp at hx
      split at hx
      · rename_i hy
        rcases List.mem_cons.mp hx with rfl | hmem
        · exact ⟨List.mem_cons_self, hy⟩
        · obtain ⟨hlog, hlt⟩ := ih hmem
          exact ⟨List.mem_cons_of_mem _ hlog, lt_trans hy hlt⟩
      · obtain ⟨hlog, hlt⟩ := ih hx
        exact ⟨List.mem_cons_of_mem _ hlog, hlt⟩

/-- A subscriber that has been handed the whole log, in order. -/
structure UpToDate (key : α → κ) (log sent : List α) (mark : κ) : Prop where
  /-- Nothing of the log is missing. -/
  all_sent : ∀ x ∈ log, x ∈ sent
  /-- Entries were handed over in strictly increasing key order. -/
  increasing : Increasing key sent
  /-- Nothing past the mark was handed over. -/
  le_mark : ∀ x ∈ sent, key x ≤ mark

/-- The mark of a reader that is up to date is beyond all of the log. -/
theorem UpToDate.log_le_mark {log sent : List α} {mark : κ}
    (h : UpToDate key log sent mark) {x : α} (hx : x ∈ log) : key x ≤ mark :=
  h.le_mark x (h.all_sent x hx)

/-- Each entry of the log has been handed over exactly once. -/
theorem UpToDate.count_eq_one [DecidableEq α] {log sent : List α} {mark : κ}
    (h : UpToDate key log sent mark) {x : α} (hx : x ∈ log) : sent.count x = 1 :=
  List.count_eq_one_of_mem h.increasing.nodup (h.all_sent x hx)

/-- A fresh subscriber is handed the log as it stands. -/
theorem UpToDate.fresh {log : List α} {mark : κ} (hinc : Increasing key log)
    (hle : ∀ x ∈ log, key x ≤ mark) : UpToDate key log log mark :=
  ⟨fun _ hx => hx, hinc, hle⟩

/-! ## Arbitrary logs -/

/-- Entries that cannot be past the mark may be left out of the log, at whatever places they are. -/
theorem catchUp_filter {p : α → Bool} {mark : κ} {log : List α}
    (h : ∀ x ∈ log, p x = false → key x ≤ mark) :
    catchUp key mark (log.filter p) = catchUp key mark log := by
  induction log generalizing mark with
  | nil => rfl
  | cons x xs ih =>
      have htail : ∀ mark', mark ≤ mark' →
          catchUp key mark' (xs.filter p) = catchUp key mark' xs := fun mark' hle =>
        ih fun y hy hp => le_trans (h y (List.mem_cons_of_mem _ hy) hp) hle
      cases hp : p x with
      | true =>
          rw [List.filter_cons_of_pos hp]
          unfold catchUp
          split
          · rename_i hx
            rw [htail _ (le_of_lt hx)]
          · exact htail _ (le_refl _)
      | false =>
          have hx : ¬ mark < key x := not_lt.mpr (h x List.mem_cons_self hp)
          rw [List.filter_cons_of_neg (by simp [hp]), htail _ (le_refl _)]
          simp only [catchUp, if_neg hx]

/-- What is handed over is in increasing order. -/
theorem increasing_catchUp (mark : κ) (log : List α) :
    Increasing key (catchUp key mark log).1 := by
  induction log generalizing mark with
  | nil => exact List.Pairwise.nil
  | cons x xs ih =>
      unfold catchUp
      split
      · exact List.pairwise_cons.mpr ⟨fun y hy => (mem_catchUp hy).2, ih _⟩
      · exact ih mark

/-- Distinct entries are all handed over only when they increase past the
mark. -/
theorem increasing_of_subset_catchUp {mark : κ} {new : List α} (hnodup : new.Nodup)
    (hall : ∀ x ∈ new, x ∈ (catchUp key mark new).1) :
    Increasing key new ∧ ∀ x ∈ new, mark < key x := by
  induction new generalizing mark with
  | nil => exact ⟨List.Pairwise.nil, fun x hx => by cases hx⟩
  | cons x xs ih =>
      obtain ⟨hfresh, hnodup⟩ := List.nodup_cons.mp hnodup
      by_cases hx : mark < key x
      · simp only [catchUp, if_pos hx] at hall
        obtain ⟨hinc, hpast⟩ := @ih (key x) hnodup fun y hy => by
          rcases List.mem_cons.mp (hall y (List.mem_cons_of_mem _ hy)) with rfl | h
          · exact absurd hy hfresh
          · exact h
        refine ⟨List.pairwise_cons.mpr ⟨hpast, hinc⟩, ?_⟩
        intro y hy
        rcases List.mem_cons.mp hy with rfl | hy
        · exact hx
        · exact lt_trans hx (hpast y hy)
      · simp only [catchUp, if_neg hx] at hall
        exact absurd (mem_catchUp (hall x List.mem_cons_self)).1 hfresh

section Arbitrary

variable [DecidableEq α] {log log' sent : List α} {mark : κ}

/-- Only what is new in the log is handed over. -/
theorem UpToDate.catchUp_new (h : UpToDate key log sent mark) :
    catchUp key mark (log'.filter fun x => x ∉ log) = catchUp key mark log' :=
  catchUp_filter fun x _ hx => h.log_le_mark (by simpa using hx)

/-- The log may change in any way: the subscriber is up to date after catching
up if what is new increases past the mark. -/
theorem UpToDate.advance (h : UpToDate key log sent mark)
    (hinc : Increasing key (log'.filter fun x => x ∉ log))
    (hpast : ∀ x ∈ log'.filter fun x => x ∉ log, mark < key x) :
    UpToDate key log' (sent ++ (catchUp key mark log').1) (catchUp key mark log').2 := by
  refine ⟨?_, ?_, ?_⟩
  · intro x hx
    by_cases hold : x ∈ log
    · exact List.mem_append_left _ (h.all_sent x hold)
    · rw [← h.catchUp_new, catchUp_of_increasing hinc hpast]
      exact List.mem_append_right _ (List.mem_filter.mpr ⟨hx, by simpa using hold⟩)
  · refine List.pairwise_append.mpr ⟨h.increasing, increasing_catchUp mark log', ?_⟩
    intro x hx y hy
    exact lt_of_le_of_lt (h.le_mark x hx) (mem_catchUp hy).2
  · intro x hx
    rcases List.mem_append.mp hx with hx | hx
    · exact le_trans (h.le_mark x hx) (le_catchUp_mark mark _)
    · exact le_catchUp_mark_of_mem (mem_catchUp hx).1

/-- **Exactness.**  If no lost entry comes back, the subscriber has all of the
changed log after catching up only when what is new increases past the mark. -/
theorem UpToDate.new_increasing (h : UpToDate key log sent mark)
    (hback : ∀ x ∈ sent, x ∈ log' → x ∈ log)
    (hnodup : (log'.filter fun x => x ∉ log).Nodup)
    (hall : ∀ x ∈ log', x ∈ sent ++ (catchUp key mark log').1) :
    Increasing key (log'.filter fun x => x ∉ log) ∧
      ∀ x ∈ log'.filter fun x => x ∉ log, mark < key x := by
  refine increasing_of_subset_catchUp hnodup fun x hx => ?_
  obtain ⟨hlog', hold⟩ := List.mem_filter.mp hx
  rw [h.catchUp_new]
  rcases List.mem_append.mp (hall x hlog') with hsent | hnew
  · exact absurd (hback x hsent hlog') (by simpa using hold)
  · exact hnew

end Arbitrary

end CursorLog
