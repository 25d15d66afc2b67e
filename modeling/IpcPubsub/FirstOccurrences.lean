import IpcPubsub.LastWrite

/-!
# First occurrences

A log that takes up an entry only when it does not hold an equal one already keeps of
a sequence what came first: `firsts`.  The order of the entries is that of their first
occurrences, so of two entries that cancel each other, the one that is last in the
log is the one that was new last, however often the other has come since
(`lastWrite_firsts_iff`).
-/

namespace FirstOccurrences

open LastWrite

variable {α : Type*} [DecidableEq α]

/-- The log takes up an entry. -/
def record (log : List α) (x : α) : List α :=
  if x ∈ log then log else log ++ [x]

/-- Every entry where it came first. -/
def firsts (xs : List α) : List α :=
  xs.foldl record []

@[simp] theorem firsts_nil : firsts ([] : List α) = [] := rfl

/-- One element more: it is recorded unless it was before. -/
theorem firsts_concat (xs : List α) (x : α) : firsts (xs ++ [x]) = record (firsts xs) x := by
  rw [firsts, List.foldl_append]
  rfl

/-- Every element has a first occurrence, and nothing else is among the first ones. -/
@[simp] theorem mem_firsts {xs : List α} {x : α} : x ∈ firsts xs ↔ x ∈ xs := by
  induction xs using List.reverseRecOn with
  | nil => simp
  | append_singleton xs y ih =>
      rw [firsts_concat, record]
      split
      case isTrue hmem =>
        rw [ih, List.mem_append, List.mem_singleton]
        constructor
        · exact Or.inl
        · rintro (hx | rfl)
          · exact hx
          · rw [← ih]
            exact hmem
      case isFalse => rw [List.mem_append, List.mem_append, ih]

/-- **What cancels what.**  Where of all that comes only `on` sets a switch and only `off`
resets it, the log leaves it set exactly when `on` came at all, and after the first
`off` if that came. -/
theorem lastWrite_firsts_iff {switch : α → Option Bool} {on off : α} (hne : on ≠ off)
    {xs : List α} (hon : ∀ x ∈ xs, switch x = some true ↔ x = on)
    (hoff : ∀ x ∈ xs, switch x = some false ↔ x = off) :
    lastWrite switch (firsts xs) = some true ↔
      on ∈ xs ∧ (off ∈ xs → xs.idxOf off < xs.idxOf on) := by
  induction xs using List.reverseRecOn with
  | nil => simp
  | append_singleton xs y ih =>
      have hkept : ∀ {x}, x ∈ xs → (xs ++ [y]).idxOf x = xs.idxOf x := fun hx =>
        List.idxOf_append_of_mem hx
      have hnew : ∀ {x}, x ∉ xs → (xs ++ [y]).idxOf x = xs.length + [y].idxOf x := fun hx =>
        List.idxOf_append_of_notMem hx
      have hbefore := ih (fun x hx => hon x (List.mem_append_left _ hx))
        fun x hx => hoff x (List.mem_append_left _ hx)
      have hon' := hon y (by simp)
      have hoff' := hoff y (by simp)
      rw [firsts_concat, record]
      by_cases hy : y ∈ xs
      · -- nothing is taken up
        rw [if_pos (mem_firsts.mpr hy)]
        refine hbefore.trans ?_
        have hmem : ∀ x, x ∈ xs ++ [y] ↔ x ∈ xs := by
          intro x
          simp only [List.mem_append, List.mem_singleton, or_iff_left_iff_imp]
          rintro rfl
          exact hy
        simp only [hmem]
        constructor
        · rintro ⟨hmemOn, hlater⟩
          exact ⟨hmemOn, fun hmemOff => by rw [hkept hmemOff, hkept hmemOn]; exact hlater hmemOff⟩
        · rintro ⟨hmemOn, hlater⟩
          refine ⟨hmemOn, fun hmemOff => ?_⟩
          have hlt := hlater hmemOff
          rwa [hkept hmemOff, hkept hmemOn] at hlt
      · rw [if_neg (fun hmem => hy (mem_firsts.mp hmem)), lastWrite_concat]
        by_cases hyon : y = on
        · subst hyon
          simp only [hon'.mpr rfl, Option.some_or, List.mem_append, List.mem_singleton, or_true,
            true_and, true_iff]
          rintro (hmemOff | heq)
          · have hlt := List.idxOf_lt_length_of_mem hmemOff
            rw [hkept hmemOff, hnew hy]
            omega
          · exact absurd heq.symm hne
        · by_cases hyoff : y = off
          · subst hyoff
            simp only [hoff'.mpr rfl, Option.some_or, List.mem_append, List.mem_singleton, hne,
              or_false, or_true, true_implies]
            refine iff_of_false (by simp) ?_
            rintro ⟨hmemOn, hlt⟩
            have hbound := List.idxOf_lt_length_of_mem hmemOn
            rw [hkept hmemOn, hnew hy] at hlt
            omega
          · have hquiet : switch y = none := by
              cases hswitch : switch y with
              | none => rfl
              | some b =>
                  cases b with
                  | true => exact absurd (hon'.mp hswitch) hyon
                  | false => exact absurd (hoff'.mp hswitch) hyoff
            rw [hquiet, Option.none_or]
            refine hbefore.trans ?_
            simp only [List.mem_append, List.mem_singleton, Ne.symm hyon, Ne.symm hyoff, or_false]
            refine and_congr_right fun hmemOn => forall_congr' fun hmemOff => ?_
            rw [hkept hmemOff, hkept hmemOn]

end FirstOccurrences
