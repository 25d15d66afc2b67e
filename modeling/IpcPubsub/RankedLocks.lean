import IpcPubsub.GuardedRuns

/-!
# Locks taken in the order of a rank

Threads run operations, one after the other; an operation is the list of the
locks and unlocks it makes.  A lock has at most one holder and is not
recursive: a thread that wants a lock somebody holds, itself included, stays
where it is.

A program follows a rank when it only ever takes a lock of higher rank than all
it holds and ends with none.  `Balanced` says this of a part of a program that
leaves the locks as it found them, which is how programs are put together.  Along
a chain of waiting threads the rank of what is waited for grows, so threads that
follow a rank never wait in a circle.  A program that starts by taking one lock
twice waits for itself after its first step, and for nobody to notice before.
-/

open GuardedRuns

namespace RankedLocks

variable {M T Op : Type*}

inductive LockAction (M : Type*)
  | lock (m : M)
  | unlock (m : M)
  deriving DecidableEq

structure LockState (T M : Type*) where
  holder : M → Option T
  /-- What each thread has still to do in its operation. -/
  program : T → List (LockAction M)

/-- No lock is held and no operation runs. -/
def LockState.idle : LockState T M where
  holder := fun _ => none
  program := fun _ => []

inductive LockEvent (T Op : Type*)
  /-- A thread that runs no operation starts one. -/
  | start (t : T) (op : Op)
  /-- A thread takes its next lock, or gives one back. -/
  | act (t : T)
  deriving DecidableEq

section Run

variable [DecidableEq T] [DecidableEq M]

def step (locks : Op → List (LockAction M)) (s : LockState T M) :
    LockEvent T Op → Option (LockState T M)
  | .start t op =>
      match s.program t with
      | [] => some { s with program := Function.update s.program t (locks op) }
      | _ :: _ => none
  | .act t =>
      match s.program t with
      | [] => none
      | .lock m :: rest =>
          match s.holder m with
          | none => some {
              holder := Function.update s.holder m (some t)
              program := Function.update s.program t rest }
          | some _ => none
      | .unlock m :: rest =>
          if s.holder m = some t then some {
            holder := Function.update s.holder m none
            program := Function.update s.program t rest }
          else none

end Run

/-- `t` wants a lock that `t'` holds. -/
def WaitsFor (s : LockState T M) (t t' : T) : Prop :=
  ∃ m rest, s.program t = .lock m :: rest ∧ s.holder m = some t'

/-- Some threads wait in a circle; one thread that waits for itself is one. -/
def Deadlocked (s : LockState T M) : Prop := ∃ t, Relation.TransGen (WaitsFor s) t t

/-! ## Programs that follow a rank -/

section Rank

variable (rank : M → Nat)

/-- A program of a thread that holds `held` follows the rank. -/
def Follows : (M → Prop) → List (LockAction M) → Prop
  | held, [] => ∀ m, ¬ held m
  | held, .lock m :: rest =>
      (∀ m', held m' → rank m' < rank m) ∧ Follows (fun m' => m' = m ∨ held m') rest
  | held, .unlock m :: rest => Follows (fun m' => m' ≠ m ∧ held m') rest

/-- A part of a program that follows the rank and leaves the locks as it found
them. -/
def Balanced (held : M → Prop) (part : List (LockAction M)) : Prop :=
  ∀ rest, Follows rank held rest → Follows rank held (part ++ rest)

/-- A part run with a lock held. -/
def locked (m : M) (part : List (LockAction M)) : List (LockAction M) :=
  .lock m :: (part ++ [.unlock m])

/-- The program starts by taking a lock twice. -/
def Reenters (program : List (LockAction M)) : Prop :=
  ∃ m rest, program = .lock m :: .lock m :: rest

variable {rank} {held : M → Prop} {part : List (LockAction M)} {m : M}

/-- A part that locks nothing. -/
theorem balanced_nil : Balanced rank held [] := fun _ h => h

/-- Two parts, one after the other: what the first has locked it has unlocked. -/
theorem Balanced.append {part' : List (LockAction M)} (h : Balanced rank held part)
    (h' : Balanced rank held part') : Balanced rank held (part ++ part') := by
  intro rest hrest
  rw [List.append_assoc]
  exact h _ (h' rest hrest)

/-- One part for each element of a list. -/
theorem balanced_flatMap {α : Type*} {f : α → List (LockAction M)} {xs : List α}
    (h : ∀ x, Balanced rank held (f x)) : Balanced rank held (xs.flatMap f) := by
  induction xs with
  | nil => exact balanced_nil
  | cons x xs ih => exact (h x).append ih

/-- A part that takes a lock of higher rank than all that is held is as balanced as what it does
with the lock. -/
theorem Balanced.locked (hrank : ∀ m', held m' → rank m' < rank m)
    (h : Balanced rank (fun m' => m' = m ∨ held m') part) :
    Balanced rank held (locked m part) := by
  intro rest hrest
  have hfree : ¬ held m := fun hm => Nat.lt_irrefl _ (hrank m hm)
  have hback : (fun m' => m' ≠ m ∧ (m' = m ∨ held m')) = held := by
    funext m'
    apply propext
    constructor
    · intro ⟨hne, hor⟩
      exact hor.resolve_left hne
    · intro hm'
      exact ⟨fun heq => hfree (heq ▸ hm'), .inr hm'⟩
  refine ⟨hrank, ?_⟩
  change Follows rank (fun m' => m' = m ∨ held m') (part ++ [.unlock m] ++ rest)
  rw [List.append_assoc]
  apply h
  change Follows rank (fun m' => m' ≠ m ∧ (m' = m ∨ held m')) rest
  rw [hback]
  exact hrest

/-- A part that follows the order never locks what it holds, since no lock is above itself. -/
theorem Follows.not_reenters (h : Follows rank held part) : ¬ Reenters part := by
  intro ⟨m, rest, heq⟩
  rw [heq] at h
  exact Nat.lt_irrefl _ (h.2.1 m (.inl rfl))

/-- A whole program starts and ends with nothing held. -/
theorem Balanced.follows (h : Balanced rank (fun _ => False) part) :
    Follows rank (fun _ => False) part := by
  have hall := h [] fun _ hm => hm
  rwa [List.append_nil] at hall

end Rank

/-! ## Who can wait for whom -/

section Wait

variable {rank : M → Nat} {locks : Op → List (LockAction M)} {bad : Op → Prop}
  {s s' : LockState T M} {t t' : T}

/-- A thread follows the rank from where it is. -/
def FollowsFrom (rank : M → Nat) (s : LockState T M) (t : T) : Prop :=
  Follows rank (fun m => s.holder m = some t) (s.program t)

/-- A thread follows the rank, or it is about to enter one of the operations
`bad` and holds nothing yet. -/
def OrderlyFrom (rank : M → Nat) (locks : Op → List (LockAction M)) (bad : Op → Prop)
    (s : LockState T M) (t : T) : Prop :=
  FollowsFrom rank s t ∨
    (∀ m, s.holder m ≠ some t) ∧ ∃ op, bad op ∧ s.program t = locks op

def Orderly (rank : M → Nat) (locks : Op → List (LockAction M)) (bad : Op → Prop)
    (s : LockState T M) : Prop :=
  ∀ t, OrderlyFrom rank locks bad s t

/-- Before the first operation nobody holds a lock. -/
theorem idle_orderly : Orderly rank locks bad (LockState.idle : LockState T M) :=
  fun _ => .inl nofun

/-- What a thread does concerns only what it holds and has to do. -/
theorem OrderlyFrom.congr (h : OrderlyFrom rank locks bad s t)
    (hholder : ∀ m, s'.holder m = some t ↔ s.holder m = some t)
    (hprogram : s'.program t = s.program t) : OrderlyFrom rank locks bad s' t := by
  unfold OrderlyFrom FollowsFrom
  rw [hprogram, funext fun m => propext (hholder m)]
  rcases h with hfollows | ⟨hnothing, hop⟩
  · exact .inl hfollows
  · exact .inr ⟨fun m hm => hnothing m ((hholder m).mp hm), hop⟩

/-- One thread moves; the others hold what they held and have to do what they
had. -/
theorem Orderly.others (h : Orderly rank locks bad s) (hmoved : OrderlyFrom rank locks bad s' t)
    (hholder : ∀ u, u ≠ t → ∀ m, s'.holder m = some u ↔ s.holder m = some u)
    (hprogram : ∀ u, u ≠ t → s'.program u = s.program u) : Orderly rank locks bad s' := by
  intro u
  by_cases hu : u = t
  · subst hu
    exact hmoved
  · exact (h u).congr (hholder u hu) (hprogram u hu)

/-- Who is waited for holds something, and follows the rank. -/
theorem Orderly.followsFrom (h : Orderly rank locks bad s) (hwait : WaitsFor s t t') :
    FollowsFrom rank s t' := by
  obtain ⟨m, rest, _, hholder⟩ := hwait
  rcases h t' with hfollows | ⟨hnothing, _⟩
  · exact hfollows
  · exact absurd hholder (hnothing m)

/-- Along a chain of waiting threads the rank of what is waited for grows. -/
theorem Orderly.rank_lt (h : Orderly rank locks bad s)
    (hchain : Relation.TransGen (WaitsFor s) t t')
    {m' : M} {rest' : List (LockAction M)} (hwants' : s.program t' = .lock m' :: rest') :
    ∃ m rest, s.program t = .lock m :: rest ∧ rank m < rank m' := by
  have hone : ∀ {u u' : T} {m' : M} {rest' : List (LockAction M)}, WaitsFor s u u' →
      s.program u' = .lock m' :: rest' →
      ∃ m rest, s.program u = .lock m :: rest ∧ rank m < rank m' := by
    intro u u' m' rest' hwait hwants
    have hfollows := h.followsFrom hwait
    obtain ⟨m, rest, hprogram, hholder⟩ := hwait
    unfold FollowsFrom at hfollows
    rw [hwants] at hfollows
    exact ⟨m, rest, hprogram, hfollows.1 m hholder⟩
  induction hchain generalizing m' rest' with
  | single hwait => exact hone hwait hwants'
  | tail _ hwait ih =>
      obtain ⟨m₁, rest₁, hprogram₁, hlt₁⟩ := hone hwait hwants'
      obtain ⟨m, rest, hprogram, hlt⟩ := ih hprogram₁
      exact ⟨m, rest, hprogram, hlt.trans hlt₁⟩

/-- **Deadlock freedom.** -/
theorem Orderly.not_deadlocked (h : Orderly rank locks bad s) : ¬ Deadlocked s := by
  intro ⟨t, hcircle⟩
  obtain ⟨t₁, ⟨m, rest, hprogram, _⟩, _⟩ := Relation.TransGen.head'_iff.mp hcircle
  obtain ⟨m', rest', hprogram', hlt⟩ := h.rank_lt hcircle hprogram
  rw [hprogram] at hprogram'
  obtain ⟨heq, _⟩ := List.cons.inj hprogram'
  cases heq
  exact Nat.lt_irrefl _ hlt

end Wait

/-! ## Runs -/

section Runs

variable [DecidableEq T] [DecidableEq M] {rank : M → Nat} {locks : Op → List (LockAction M)}
  {bad : Op → Prop} {s s' : LockState T M} {t : T} {event : LockEvent T Op}

/-- A thread takes the first lock of one of the operations `bad`. -/
def Enters (locks : Op → List (LockAction M)) (bad : Op → Prop) (s : LockState T M)
    (event : LockEvent T Op) : Prop :=
  ∃ t op, event = .act t ∧ bad op ∧ s.program t = locks op

/-- An operation starts without a lock, and follows the order or is one of the bad ones. -/
theorem Orderly.start {op : Op} (h : Orderly rank locks bad s)
    (hop : Follows rank (fun _ => False) (locks op) ∨ bad op)
    (hstep : step locks s (.start t op) = some s') : Orderly rank locks bad s' := by
  simp only [step] at hstep
  split at hstep
  · rename_i hidle
    obtain rfl := Option.some.inj hstep
    have hnothing : ∀ m, s.holder m ≠ some t := by
      rcases h t with hfollows | ⟨hnothing, _⟩
      · unfold FollowsFrom at hfollows
        rw [hidle] at hfollows
        exact hfollows
      · exact hnothing
    apply h.others (t := t)
    · rcases hop with hfollows | hbad
      · left
        have hheld : (fun m => s.holder m = some t) = fun _ => False :=
          funext fun m => eq_false (hnothing m)
        unfold FollowsFrom
        simp only [Function.update_self, hheld]
        exact hfollows
      · exact .inr ⟨hnothing, op, hbad, Function.update_self _ _ _⟩
    · exact fun _ _ _ => Iff.rfl
    · exact fun u hu => Function.update_of_ne hu _ _
  · cases hstep

/-- A thread takes or gives back a lock, which concerns no other thread. -/
theorem Orderly.update (h : Orderly rank locks bad s) {m : M} {entry : Option T}
    {rest : List (LockAction M)}
    (hfollows : Follows rank (fun m' => Function.update s.holder m entry m' = some t) rest)
    (hothers : ∀ u, u ≠ t → (entry = some u ↔ s.holder m = some u)) :
    Orderly rank locks bad {
      holder := Function.update s.holder m entry
      program := Function.update s.program t rest } := by
  apply h.others (t := t)
  · left
    unfold FollowsFrom
    simp only [Function.update_self]
    exact hfollows
  · intro u hu m'
    by_cases hm : m' = m
    · subst hm
      simp only [Function.update_self]
      exact hothers u hu
    · simp only [Function.update_of_ne hm]
  · exact fun u hu => Function.update_of_ne hu _ _

/-- A thread that follows the order locks and unlocks as it goes. -/
theorem Orderly.act (h : Orderly rank locks bad s) (hfollows : FollowsFrom rank s t)
    (hstep : step locks s (.act t) = some s') : Orderly rank locks bad s' := by
  simp only [step] at hstep
  unfold FollowsFrom at hfollows
  split at hstep
  · cases hstep
  · rename_i m rest hprogram
    rw [hprogram] at hfollows
    split at hstep
    · rename_i hfree
      obtain rfl := Option.some.inj hstep
      apply h.update
      · have hheld : (fun m' => Function.update s.holder m (some t) m' = some t) =
            fun m' => m' = m ∨ s.holder m' = some t := by
          funext m'
          by_cases hm : m' = m <;> simp [hm]
        rw [hheld]
        exact hfollows.2
      · intro u hu
        simp [hfree, Ne.symm hu]
    · cases hstep
  · rename_i m rest hprogram
    rw [hprogram] at hfollows
    split at hstep
    · rename_i hmine
      obtain rfl := Option.some.inj hstep
      apply h.update
      · have hheld : (fun m' => Function.update s.holder m none m' = some t) =
            fun m' => m' ≠ m ∧ s.holder m' = some t := by
          funext m'
          by_cases hm : m' = m <;> simp [hm]
        rw [hheld]
        exact hfollows
      · intro u hu
        simp [hmine, Ne.symm hu]
    · cases hstep

/-- A thread that takes one lock twice waits for itself after the first time. -/
theorem deadlocked_of_enters (hbad : ∀ op, bad op → Reenters (locks op))
    (henters : Enters locks bad s event) (hstep : step locks s event = some s') :
    Deadlocked s' := by
  obtain ⟨t, op, rfl, hop, hprogram⟩ := henters
  obtain ⟨m, rest, hreenters⟩ := hbad op hop
  rw [hreenters] at hprogram
  simp only [step, hprogram] at hstep
  split at hstep
  · obtain rfl := Option.some.inj hstep
    refine ⟨t, .single ⟨m, rest, ?_, ?_⟩⟩
    · simp
    · simp
  · cases hstep

/-- **Threads that follow a rank.**  Let every operation follow the rank but
for some that start by taking one lock twice.  A run is free of deadlock exactly
when no thread takes the first lock of one of these. -/
theorem deadlock_free_iff (rank : M → Nat) (hbad : ∀ op, bad op → Reenters (locks op))
    (hlocks : ∀ op, Follows rank (fun _ => False) (locks op) ∨ bad op)
    {events : List (LockEvent T Op)} (hrun : exec (step locks) LockState.idle events = some s') :
    Throughout (step locks) (fun s => ¬ Deadlocked s) LockState.idle events ↔
      Along (step locks) (fun s event => ¬ Enters locks bad s event) LockState.idle events := by
  apply throughout_iff_along (D := fun _ _ => True) (I := Orderly rank locks bad)
  · exact fun s hs => hs.not_deadlocked
  · intro s event s' hs _ hguard hstep
    cases event with
    | start t op => exact hs.start (hlocks op) hstep
    | act t =>
        rcases hs t with hfollows | ⟨_, op, hop, hprogram⟩
        · exact hs.act hfollows hstep
        · exact absurd ⟨t, op, rfl, hop, hprogram⟩ hguard
  · intro s event s' _ _ hguard hstep
    exact not_not.mpr (deadlocked_of_enters hbad (not_not.mp hguard) hstep)
  · exact idle_orderly
  · exact along_true _ _
  · exact hrun

/-- A thread enters only what was started, and nothing that was started takes a lock it has. -/
theorem along_not_enters (rank : M → Nat) (hbad : ∀ op, bad op → Reenters (locks op))
    {events : List (LockEvent T Op)}
    (hstarts : ∀ t op, .start t op ∈ events → Follows rank (fun _ => False) (locks op)) :
    Along (step locks) (fun s event => ¬ Enters locks bad s event)
      (LockState.idle : LockState T M) events := by
  apply along_of_invariant (I := Orderly rank locks fun _ => False)
    (P := fun _ event => ∀ t op, event = .start t op → Follows rank (fun _ => False) (locks op))
  · intro s event s' hs hstart hstep
    cases event with
    | start t op => exact hs.start (.inl (hstart t op rfl)) hstep
    | act t =>
        rcases hs t with hfollows | ⟨_, _, hnone, _⟩
        · exact hs.act hfollows hstep
        · exact hnone.elim
  · intro s event hs _ ⟨t, op, _, hop, hprogram⟩
    rcases hs t with hfollows | ⟨_, _, hnone, _⟩
    · unfold FollowsFrom at hfollows
      rw [hprogram] at hfollows
      exact hfollows.not_reenters (hbad op hop)
    · exact hnone
  · exact idle_orderly
  · exact along_of_forall fun event hevent t op heq => hstarts t op (heq ▸ hevent)

end Runs

end RankedLocks
