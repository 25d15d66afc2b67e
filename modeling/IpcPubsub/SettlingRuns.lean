import IpcPubsub.GuardedRuns

/-!
# Runs that settle

What a measure on the states says about how long a run can be and where it ends.

`countAlong P` counts the events of a run that meet `P`.  When every event costs the
rank at least one, except that an event that meets `P` is paid `c` for it, then the
length of a run is bounded by the rank and by what was paid
(`length_le_of_rank`).

`exists_reaches` leads from every state to a goal along events that bring a
well-founded order down, and `exists_settles` leads to a state in which none of the
events can happen any more.
-/

namespace GuardedRuns

variable {σ ε : Type*} {step : σ → ε → Option σ}

/-- How many events of a run meet `P`. -/
def countAlong (step : σ → ε → Option σ) (P : σ → ε → Prop) [∀ s e, Decidable (P s e)] :
    σ → List ε → Nat
  | _, [] => 0
  | s, e :: es =>
      (if P s e then 1 else 0) + ((step s e).elim 0 fun s' => countAlong step P s' es)

/-- The parts of a state when one part changes. -/
theorem getElem?_set_part {α : Type*} {parts : List α} {i : Nat} {old : α}
    (hold : parts[i]? = some old) (new : α) (j : Nat) :
    (parts.set i new)[j]? = if j = i then some new else parts[j]? := by
  have hlength : i < parts.length := (List.getElem?_eq_some_iff.mp hold).1
  rw [List.getElem?_set]
  grind

/-- A sum over the parts of a state when one part changes. -/
theorem sum_map_set {α : Type*} (f : α → Nat) {parts : List α} {i : Nat} {old : α} (new : α)
    (hold : parts[i]? = some old) :
    ((parts.set i new).map f).sum + f old = (parts.map f).sum + f new := by
  induction parts generalizing i with
  | nil => simp at hold
  | cons part parts ih =>
      cases i with
      | zero =>
          obtain rfl : part = old := by simpa using hold
          simp only [List.set_cons_zero, List.map_cons, List.sum_cons]
          omega
      | succ i =>
          have htail := ih (i := i) (by simpa using hold)
          simp only [List.set_cons_succ, List.map_cons, List.sum_cons]
          omega

section Count

variable {P : σ → ε → Prop} [∀ s e, Decidable (P s e)]

@[simp] theorem countAlong_nil (s : σ) : countAlong step P s [] = 0 := rfl

theorem countAlong_cons {s s' : σ} {e : ε} (es : List ε) (hstep : step s e = some s') :
    countAlong step P s (e :: es) = (if P s e then 1 else 0) + countAlong step P s' es := by
  simp [countAlong, hstep]

/-- **Accounting rule.**  A guarded run is as long as the rank it uses up, and `c`
more for every event that meets `P`. -/
theorem length_le_of_rank {I : σ → Prop} {D : σ → ε → Prop} {rank : σ → Nat} {c : Nat}
    (hkeep : ∀ s e s', I s → D s e → step s e = some s' → I s')
    (hrank : ∀ s e s', I s → D s e → step s e = some s' →
      rank s' + 1 ≤ rank s + if P s e then c else 0)
    {s s' : σ} {es : List ε} (hI : I s) (hD : Along step D s es) (hs : exec step s es = some s') :
    es.length + rank s' ≤ rank s + c * countAlong step P s es := by
  induction es generalizing s with
  | nil =>
      obtain rfl : s = s' := by simpa using hs
      simp
  | cons e es ih =>
      obtain ⟨s₁, hstep, hrest⟩ := Option.bind_eq_some_iff.mp hs
      have hhead := hrank s e s₁ hI hD.1 hstep
      have htail := ih (hkeep s e s₁ hI hD.1 hstep) (hD.2 s₁ hstep) hrest
      rw [countAlong_cons es hstep, Nat.mul_add, List.length_cons]
      split at hhead <;> simp only [*, if_true, if_false] <;> omega

end Count

/-- Nothing is counted where nothing meets `P`. -/
theorem countAlong_eq_zero {P : σ → ε → Prop} [∀ s e, Decidable (P s e)] {s : σ} {es : List ε}
    (h : Along step (fun s e => ¬ P s e) s es) : countAlong step P s es = 0 := by
  induction es generalizing s with
  | nil => rfl
  | cons e es ih =>
      cases hstep : step s e with
      | none => simp [countAlong, hstep, h.1]
      | some s' => rw [countAlong_cons es hstep, if_neg h.1, ih (h.2 s' hstep)]

/-- What every event of a completed run meets is a condition on the list. -/
theorem forall_of_along {P : ε → Prop} {s s' : σ} {es : List ε}
    (h : Along step (fun _ e => P e) s es) (hs : exec step s es = some s') : ∀ e ∈ es, P e := by
  induction es generalizing s with
  | nil => simp
  | cons e es ih =>
      obtain ⟨s₁, hstep, hrest⟩ := Option.bind_eq_some_iff.mp hs
      exact List.forall_mem_cons.mpr ⟨h.1, ih (h.2 s₁ hstep) hrest⟩

section WellFounded

variable {I : σ → Prop} {lower : σ → σ → Prop}

variable (step) in
/-- **Progress rule.**  If from every state short of the goal some event that meets
`E` leads lower, then such events lead to the goal. -/
theorem exists_reaches (hwf : WellFounded lower) {E : σ → ε → Prop} {G : σ → Prop}
    (hprogress : ∀ s, I s → ¬ G s →
      ∃ e s', E s e ∧ step s e = some s' ∧ I s' ∧ lower s' s)
    {s : σ} (hI : I s) :
    ∃ es s', Along step E s es ∧ exec step s es = some s' ∧ I s' ∧ G s' := by
  induction s using hwf.induction with
  | h s ih =>
      by_cases hgoal : G s
      · exact ⟨[], s, trivial, rfl, hI, hgoal⟩
      · obtain ⟨e, s₁, he, hstep, hI₁, hlower⟩ := hprogress s hI hgoal
        obtain ⟨es, s', hes, hexec, hI', hgoal'⟩ := ih s₁ hlower hI₁
        refine ⟨e :: es, s', (along_cons_iff hstep).mpr ⟨he, hes⟩, ?_, hI', hgoal'⟩
        rw [exec_cons, hstep]
        exact hexec

variable (step) in
/-- **Settling rule.**  Events that always lead lower run out: some run of them ends
where none of them can happen. -/
theorem exists_settles (hwf : WellFounded lower) {E : σ → ε → Prop}
    (hstep : ∀ s e s', I s → E s e → step s e = some s' → I s' ∧ lower s' s)
    {s : σ} (hI : I s) :
    ∃ es s', Along step E s es ∧ exec step s es = some s' ∧ I s' ∧
      ∀ e, E s' e → step s' e = none := by
  apply exists_reaches step hwf _ hI
  intro s hI hmoves
  simp only [not_forall] at hmoves
  obtain ⟨e, he, hsome⟩ := hmoves
  obtain ⟨s', hs'⟩ := Option.ne_none_iff_exists'.mp hsome
  obtain ⟨hI', hlower⟩ := hstep s e s' hI he hs'
  exact ⟨e, s', he, hs', hI', hlower⟩

/-- Events that always lead lower do not go on for ever. -/
theorem not_forever (hwf : WellFounded lower) {E : σ → ε → Prop}
    (hstep : ∀ s e s', I s → E s e → step s e = some s' → lower s' s)
    (states : Nat → σ) (events : Nat → ε)
    (hI : ∀ n, I (states n)) (hE : ∀ n, E (states n) (events n)) :
    ¬ ∀ n, step (states n) (events n) = some (states (n + 1)) := by
  intro hruns
  have hdown : ∀ n, lower (states (n + 1)) (states n) := fun n =>
    hstep _ _ _ (hI n) (hE n) (hruns n)
  exact (wellFounded_iff_isEmpty_descending_chain.mp hwf).false ⟨states, hdown⟩

end WellFounded

end GuardedRuns
