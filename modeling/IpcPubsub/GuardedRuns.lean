import Mathlib

/-!
# Runs of a partial step function

A system is a partial step function `step : σ → ε → Option σ`: `none` means
that the event cannot happen in the state.  `exec` folds a list of events.

Two predicates speak about a whole run from a state.  `Throughout Q` says that
every state reached satisfies `Q`; `Along P` says that every event taken
satisfies the guard `P` in the state before it.  `Since P R` looks back: an event that
meets `P` has been taken, and none that meets `R` after it.  `exec_invariant` is the
induction every safety theorem uses, and `throughout_iff_along` is its exact
form: if a guarded step keeps the invariant and an unguarded one breaks the
property at once, then the property holds at every state of a run exactly when
every event of the run is guarded.  `along_of_escape` is for properties that break
later than the guard.
-/

namespace GuardedRuns

variable {σ ε : Type*} (step : σ → ε → Option σ)

/-- Take the events of a list one after the other. -/
def exec : σ → List ε → Option σ
  | s, [] => some s
  | s, e :: es => (step s e).bind fun s' => exec s' es

/-- Every state reached on the way, the first and the last included. -/
def Throughout (Q : σ → Prop) : σ → List ε → Prop
  | s, [] => Q s
  | s, e :: es => Q s ∧ ∀ s', step s e = some s' → Throughout Q s' es

/-- Every event on the way meets `P` in the state before it. -/
def Along (P : σ → ε → Prop) : σ → List ε → Prop
  | _, [] => True
  | s, e :: es => P s e ∧ ∀ s', step s e = some s' → Along P s' es

/-- An event that meets `P` has been taken, and none that meets `R` since. -/
def Since (P R : σ → ε → Prop) (s : σ) (es : List ε) : Prop :=
  ∃ first e later s₁ s₂, es = first ++ e :: later ∧ exec step s first = some s₁ ∧ P s₁ e ∧
    step s₁ e = some s₂ ∧ Along step (fun s e => ¬ R s e) s₂ later

variable {step}

@[simp] theorem exec_nil (s : σ) : exec step s [] = some s := rfl

@[simp] theorem exec_cons (s : σ) (e : ε) (es : List ε) :
    exec step s (e :: es) = (step s e).bind fun s' => exec step s' es := rfl

/-- Where the first event leads to a state, the rest of the run starts there. -/
theorem along_cons_iff {P : σ → ε → Prop} {s s₁ : σ} {e : ε} {es : List ε}
    (hstep : step s e = some s₁) :
    Along step P s (e :: es) ↔ P s e ∧ Along step P s₁ es := by
  simp [Along, hstep]

/-- The same of the states. -/
theorem throughout_cons_iff {Q : σ → Prop} {s s₁ : σ} {e : ε} {es : List ε}
    (hstep : step s e = some s₁) :
    Throughout step Q s (e :: es) ↔ Q s ∧ Throughout step Q s₁ es := by
  simp [Throughout, hstep]

/-- The first state of a run is one of those reached. -/
theorem Throughout.head {Q : σ → Prop} {s : σ} {es : List ε} (h : Throughout step Q s es) :
    Q s := by
  cases es with
  | nil => exact h
  | cons e es => exact h.1

/-- A decidable guard is decided by running the events. -/
instance Along.decidable (P : σ → ε → Prop) [∀ s e, Decidable (P s e)] :
    ∀ s es, Decidable (Along step P s es)
  | _, [] => isTrue trivial
  | s, e :: es =>
      have : ∀ s', Decidable (Along step P s' es) := fun s' => Along.decidable P s' es
      inferInstanceAs (Decidable (P s e ∧ ∀ s' ∈ step s e, Along step P s' es))

/-- A decidable property is decided by running the events. -/
instance Throughout.decidable (Q : σ → Prop) [DecidablePred Q] :
    ∀ s es, Decidable (Throughout step Q s es)
  | s, [] => inferInstanceAs (Decidable (Q s))
  | s, e :: es =>
      have : ∀ s', Decidable (Throughout step Q s' es) := fun s' => Throughout.decidable Q s' es
      inferInstanceAs (Decidable (Q s ∧ ∀ s' ∈ step s e, Throughout step Q s' es))

/-- A run is taken part by part. -/
theorem exec_append (s : σ) (xs ys : List ε) :
    exec step s (xs ++ ys) = (exec step s xs).bind fun s' => exec step s' ys := by
  induction xs generalizing s with
  | nil => rfl
  | cons e es ih =>
      cases h : step s e with
      | none => simp [h]
      | some s' => simp [h, ih]

/-- A weaker guard. -/
theorem Along.mono {P P' : σ → ε → Prop} (hP : ∀ s e, P s e → P' s e)
    {s : σ} {es : List ε} (h : Along step P s es) : Along step P' s es := by
  induction es generalizing s with
  | nil => trivial
  | cons e es ih => exact ⟨hP s e h.1, fun s' hs => ih (h.2 s' hs)⟩

/-- Two guards at once. -/
theorem Along.and {P P' : σ → ε → Prop} {s : σ} {es : List ε}
    (h : Along step P s es) (h' : Along step P' s es) :
    Along step (fun s e => P s e ∧ P' s e) s es := by
  induction es generalizing s with
  | nil => trivial
  | cons e es ih => exact ⟨⟨h.1, h'.1⟩, fun s' hs => ih (h.2 s' hs) (h'.2 s' hs)⟩

/-- A guard that looks at the event alone is a condition on the list. -/
theorem along_of_forall {P : ε → Prop} {s : σ} {es : List ε} (h : ∀ e ∈ es, P e) :
    Along step (fun _ e => P e) s es := by
  induction es generalizing s with
  | nil => trivial
  | cons e es ih =>
      exact ⟨h e List.mem_cons_self, fun s' _ => ih fun e' he => h e' (List.mem_cons_of_mem _ he)⟩

/-- Nothing is asked of the events. -/
theorem along_true (s : σ) (es : List ε) : Along step (fun _ _ => True) s es :=
  along_of_forall fun _ _ => trivial

/-- Every event of a completed run could happen. -/
theorem along_isSome {s s' : σ} {es : List ε} (hs : exec step s es = some s') :
    Along step (fun s e => (step s e).isSome) s es := by
  induction es generalizing s with
  | nil => trivial
  | cons e es ih =>
      obtain ⟨s₁, hstep, hrest⟩ := Option.bind_eq_some_iff.mp hs
      exact (along_cons_iff hstep).mpr ⟨by simp [hstep], ih hrest⟩

/-- A condition on the events of a run splits at any point of it. -/
theorem along_append_iff {P : σ → ε → Prop} {s s' : σ} {xs : List ε} (ys : List ε)
    (hs : exec step s xs = some s') :
    Along step P s (xs ++ ys) ↔ Along step P s xs ∧ Along step P s' ys := by
  induction xs generalizing s with
  | nil =>
      obtain rfl : s = s' := by simpa using hs
      simp [Along]
  | cons e es ih =>
      obtain ⟨s₁, hstep, hrest⟩ := Option.bind_eq_some_iff.mp hs
      rw [List.cons_append, along_cons_iff hstep, along_cons_iff hstep, ih hrest, and_assoc]

/-- A condition on the events of a run, read off its prefixes. -/
theorem along_iff_split {P : σ → ε → Prop} {s : σ} {es : List ε} :
    Along step P s es ↔ ∀ before e after s', es = before ++ e :: after →
      exec step s before = some s' → P s' e := by
  constructor
  · rintro h before e after s' rfl hs
    exact ((along_append_iff _ hs).mp h).2.1
  · intro h
    induction es generalizing s with
    | nil => trivial
    | cons e es ih =>
        refine ⟨h [] e es s rfl rfl, fun s₁ hstep => ih fun before e' after s' heq hs => ?_⟩
        exact h (e :: before) e' after s' (by rw [heq, List.cons_append])
          (by rw [exec_cons, hstep, Option.bind_some, hs])

/-- What one more event makes of `Since`: it starts the count anew, or it has to leave it alone. -/
theorem since_concat {P R : σ → ε → Prop} {s s' s'' : σ} {es : List ε} {e : ε}
    (hs : exec step s es = some s') (hstep : step s' e = some s'') :
    Since step P R s (es ++ [e]) ↔ P s' e ∨ Since step P R s es ∧ ¬ R s' e := by
  constructor
  · rintro ⟨first, e', later, s₁, s₂, heq, hfirst, hP, hstep', hlater⟩
    rcases List.eq_nil_or_concat later with rfl | ⟨before, last, rfl⟩
    · -- it is the last event
      obtain ⟨rfl, hlast⟩ := List.append_inj' heq rfl
      obtain rfl := List.singleton_inj.mp hlast
      obtain rfl := Option.some.inj (hs.symm.trans hfirst)
      exact .inl hP
    · rw [List.concat_eq_append, ← List.cons_append, ← List.append_assoc] at heq
      obtain ⟨rfl, hlast⟩ := List.append_inj' heq rfl
      obtain rfl := List.singleton_inj.mp hlast
      have hbefore : exec step s₂ before = some s' := by
        rwa [exec_append, hfirst, Option.bind_some, exec_cons, hstep', Option.bind_some] at hs
      rw [List.concat_eq_append, along_append_iff _ hbefore] at hlater
      exact .inr ⟨⟨first, e', before, s₁, s₂, rfl, hfirst, hP, hstep', hlater.1⟩, hlater.2.1⟩
  · rintro (hP | ⟨⟨first, e', later, s₁, s₂, rfl, hfirst, hP, hstep', hlater⟩, hR⟩)
    · exact ⟨es, e, [], s', s'', rfl, hs, hP, hstep, trivial⟩
    · have hbefore : exec step s₂ later = some s' := by
        rwa [exec_append, hfirst, Option.bind_some, exec_cons, hstep', Option.bind_some] at hs
      refine ⟨first, e', later ++ [e], s₁, s₂, by simp, hfirst, hP, hstep', ?_⟩
      exact (along_append_iff _ hbefore).mpr ⟨hlater, hR, fun _ _ => trivial⟩

/-- **A register.**  If in the scope `D` every step sets `F` where it meets `P` and resets it
where it meets `R`, and the scope is entered by an event that meets `R` only, then there `F`
tells whether an event that meets `P` has been taken since. -/
theorem register_iff_since {P R : σ → ε → Prop} {D F : σ → Prop}
    (hstep : ∀ s e s', step s e = some s' → D s' →
      (D s ∨ R s e) ∧ (F s' ↔ P s e ∨ F s ∧ ¬ R s e))
    {s s' : σ} {es : List ε} (hstart : ¬ D s) (hs : exec step s es = some s') (hD : D s') :
    F s' ↔ Since step P R s es := by
  induction es using List.reverseRecOn generalizing s' with
  | nil =>
      obtain rfl : s = s' := by simpa using hs
      exact absurd hD hstart
  | append_singleton es e ih =>
      rw [exec_append, Option.bind_eq_some_iff] at hs
      obtain ⟨s₁, hbefore, hlast⟩ := hs
      have hstep₁ : step s₁ e = some s' := by simpa using hlast
      obtain ⟨hscope, hset⟩ := hstep s₁ e s' hstep₁ hD
      rw [hset, since_concat hbefore hstep₁]
      by_cases hR : R s₁ e
      · simp [hR]
      · rw [ih hbefore (hscope.resolve_right hR)]

/-- The last state of a run is one of those reached. -/
theorem Throughout.last {Q : σ → Prop} {s s' : σ} {es : List ε}
    (h : Throughout step Q s es) (hs : exec step s es = some s') : Q s' := by
  induction es generalizing s with
  | nil =>
      obtain rfl : s = s' := by simpa using hs
      exact h
  | cons e es ih =>
      obtain ⟨s₁, hstep, hrest⟩ := Option.bind_eq_some_iff.mp hs
      exact ih (h.2 s₁ hstep) hrest

/-- **Invariant rule.**  An invariant kept by every step whose event meets the
guard holds at the end of a guarded run. -/
theorem exec_invariant {P : σ → ε → Prop} {I : σ → Prop}
    (hstep : ∀ s e s', I s → P s e → step s e = some s' → I s')
    {s s' : σ} {es : List ε} (hI : I s) (hP : Along step P s es)
    (hs : exec step s es = some s') : I s' := by
  induction es generalizing s with
  | nil =>
      obtain rfl : s = s' := by simpa using hs
      exact hI
  | cons e es ih =>
      obtain ⟨s₁, hstep₁, hrest⟩ := Option.bind_eq_some_iff.mp hs
      exact ih (hstep s e s₁ hI hP.1 hstep₁) (hP.2 s₁ hstep₁) hrest

/-- An invariant kept by every step holds at the end of every run. -/
theorem exec_preserves {I : σ → Prop} (hstep : ∀ s e s', I s → step s e = some s' → I s')
    {s s' : σ} {es : List ε} (hI : I s) (hs : exec step s es = some s') : I s' :=
  exec_invariant (fun s e s' h _ => hstep s e s' h) hI (along_true s es) hs

/-- **A refinement, run by run.**  If the states of one system stand for states of another
and the steps agree wherever an invariant holds, then so do the runs. -/
theorem exec_map {τ : Type*} {step' : τ → ε → Option τ} {f : σ → τ} {I : σ → Prop} {D : ε → Prop}
    (hstep : ∀ s e, I s → D e → step' (f s) e = (step s e).map f)
    (hI : ∀ s e s', I s → D e → step s e = some s' → I s') {s : σ} {es : List ε} (hs : I s)
    (hD : ∀ e ∈ es, D e) : exec step' (f s) es = (exec step s es).map f := by
  induction es generalizing s with
  | nil => rfl
  | cons e es ih =>
      have he := hD e List.mem_cons_self
      rw [exec_cons, exec_cons, hstep s e hs he]
      cases hnext : step s e with
      | none => rfl
      | some s' =>
          exact ih (hI s e s' hs he hnext) fun e' hmem => hD e' (List.mem_cons_of_mem _ hmem)

/-- What follows from an invariant holds in every state of a guarded run. -/
theorem throughout_of_invariant {P : σ → ε → Prop} {I Q : σ → Prop}
    (hstep : ∀ s e s', I s → P s e → step s e = some s' → I s') (hQ : ∀ s, I s → Q s)
    {s : σ} {es : List ε} (hI : I s) (hP : Along step P s es) : Throughout step Q s es := by
  induction es generalizing s with
  | nil => exact hQ s hI
  | cons e es ih =>
      exact ⟨hQ s hI, fun s' hs => ih (hstep s e s' hI hP.1 hs) (hP.2 s' hs)⟩

/-- Every event of a run meets what follows from the invariant and the guard. -/
theorem along_of_invariant {P R : σ → ε → Prop} {I : σ → Prop}
    (hstep : ∀ s e s', I s → P s e → step s e = some s' → I s')
    (hR : ∀ s e, I s → P s e → R s e) {s : σ} {es : List ε} (hI : I s)
    (hP : Along step P s es) : Along step R s es := by
  induction es generalizing s with
  | nil => trivial
  | cons e es ih =>
      exact ⟨hR s e hI hP.1, fun s' hs => ih (hstep s e s' hI hP.1 hs) (hP.2 s' hs)⟩

/-- Two conditions on events that agree wherever the invariant holds. -/
theorem along_congr {D P R : σ → ε → Prop} {I : σ → Prop}
    (hstep : ∀ s e s', I s → D s e → step s e = some s' → I s')
    (hiff : ∀ s e, I s → D s e → (P s e ↔ R s e)) {s : σ} {es : List ε} (hI : I s)
    (hD : Along step D s es) : Along step P s es ↔ Along step R s es := by
  constructor
  · intro hP
    exact along_of_invariant (fun s e s' h hDP => hstep s e s' h hDP.1)
      (fun s e h hDP => (hiff s e h hDP.1).mp hDP.2) hI (hD.and hP)
  · intro hR
    exact along_of_invariant (fun s e s' h hDR => hstep s e s' h hDR.1)
      (fun s e h hDR => (hiff s e h hDR.1).mpr hDR.2) hI (hD.and hR)

/-- **Exact guard.**  Let `D` be what the environment promises of every event.
If a promised event that meets `P` keeps the invariant, and a promised event
that violates `P` leads from the invariant to a state without `Q`, then a run
has `Q` throughout exactly when all its events meet `P`. -/
theorem throughout_iff_along {D P : σ → ε → Prop} {I Q : σ → Prop}
    (hQ : ∀ s, I s → Q s)
    (hkeep : ∀ s e s', I s → D s e → P s e → step s e = some s' → I s')
    (hbreak : ∀ s e s', I s → D s e → ¬ P s e → step s e = some s' → ¬ Q s')
    {s s' : σ} {es : List ε} (hI : I s) (hD : Along step D s es)
    (hs : exec step s es = some s') :
    Throughout step Q s es ↔ Along step P s es := by
  induction es generalizing s with
  | nil => exact ⟨fun _ => trivial, fun _ => hQ s hI⟩
  | cons e es ih =>
      obtain ⟨s₁, hstep, hrest⟩ := Option.bind_eq_some_iff.mp hs
      by_cases hP : P s e
      · have htail := ih (hkeep s e s₁ hI hD.1 hP hstep) (hD.2 s₁ hstep) hrest
        rw [throughout_cons_iff hstep, along_cons_iff hstep]
        exact ⟨fun h => ⟨hP, htail.mp h.2⟩, fun h => ⟨hQ s hI, htail.mpr h.2⟩⟩
      · constructor
        · intro h
          have hreached : Q s₁ := (h.2 s₁ hstep).head
          exact absurd hreached (hbreak s e s₁ hI hD.1 hP hstep)
        · intro h
          exact absurd h.1 hP

/-- **Trap rule.**  If an event that violates the guard leads into a trap, and no
event leads out of it, then a run that ends outside of the trap was guarded. -/
theorem along_of_escape {P : σ → ε → Prop} {I T : σ → Prop}
    (hkeep : ∀ s e s', I s → P s e → step s e = some s' → I s')
    (hfall : ∀ s e s', I s → ¬ P s e → step s e = some s' → T s')
    (hstay : ∀ s e s', T s → step s e = some s' → T s')
    {s s' : σ} {es : List ε} (hI : I s) (hs : exec step s es = some s') (hend : ¬ T s') :
    Along step P s es := by
  induction es generalizing s with
  | nil => trivial
  | cons e es ih =>
      obtain ⟨s₁, hstep, hrest⟩ := Option.bind_eq_some_iff.mp hs
      by_cases hP : P s e
      · have htail := ih (hkeep s e s₁ hI hP hstep) hrest
        exact (along_cons_iff hstep).mpr ⟨hP, htail⟩
      · -- from here on the run is in the trap
        have hfalls : T s₁ := hfall s e s₁ hI hP hstep
        have hlast : T s' := exec_preserves hstay hfalls hrest
        exact absurd hlast hend

end GuardedRuns
