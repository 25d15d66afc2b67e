import Mathlib

/-!
# Registers under a sequence of events

A state is folded over events.  A **register** is a view of the state that some
events overwrite and all others leave alone: `write e` is the value event `e`
puts into it, or `none`.  After any sequence of events the register holds the
value of the last event that wrote it, or what it held before
(`register_foldl`).
-/

namespace LastWrite

variable {σ ε ν : Type*}

/-- The value the last writing event of a list wrote. -/
def lastWrite (write : ε → Option ν) : List ε → Option ν
  | [] => none
  | e :: es => (lastWrite write es).or (write e)

variable {write : ε → Option ν}

@[simp] theorem lastWrite_nil : lastWrite write [] = none := rfl

@[simp] theorem lastWrite_cons (e : ε) (es : List ε) :
    lastWrite write (e :: es) = (lastWrite write es).or (write e) := rfl

/-- The last write of two parts is that of the second, if it has one. -/
theorem lastWrite_append (xs ys : List ε) :
    lastWrite write (xs ++ ys) = (lastWrite write ys).or (lastWrite write xs) := by
  induction xs with
  | nil => simp
  | cons e es ih => simp [ih, Option.or_assoc]

/-- One event more. -/
@[simp] theorem lastWrite_concat (xs : List ε) (e : ε) :
    lastWrite write (xs ++ [e]) = (write e).or (lastWrite write xs) := by
  simp [lastWrite_append]

/-- **A register holds its last write.**  The states are those of an invariant
that every event keeps. -/
theorem register_foldl {step : σ → ε → σ} (register : σ → ν) {I : σ → Prop}
    (hkeep : ∀ s e, I s → I (step s e))
    (hstep : ∀ s e, I s → register (step s e) = (write e).getD (register s))
    (es : List ε) {s : σ} (hs : I s) :
    register (es.foldl step s) = (lastWrite write es).getD (register s) := by
  induction es generalizing s with
  | nil => rfl
  | cons e es ih =>
      rw [List.foldl_cons, ih (hkeep s e hs), hstep s e hs, lastWrite_cons]
      cases lastWrite write es <;> rfl

end LastWrite
