import Mathlib

/-!
# Finite maps with an unspecified iteration order

A C++ `std::unordered_map` is Mathlib's `Finmap` at a constant family: equality
is extensional and no program over it can depend on the order of its entries.
This file adds the two whole-map operations that a hash map is iterated for:
rewriting every value in place (`mapValues`) and collecting a field of every
value (`image`).
-/

namespace FiniteMap

/-- A finite map with keys `κ` and values `ν`. -/
abbrev UnorderedMap (κ ν : Type) := Finmap fun _ : κ => ν

variable {κ ν μ : Type}

/-- Rewrite every value, leaving the keys. -/
def mapValues (f : κ → ν → μ) (s : UnorderedMap κ ν) : UnorderedMap κ μ where
  entries := s.entries.map fun e => ⟨e.1, f e.1 e.2⟩
  nodupKeys := by
    obtain ⟨entries, hnd⟩ := s
    induction entries using Quotient.inductionOn with
    | h l => exact List.NodupKeys.map₂ f l hnd

/-- Every value of a field of the stored values. -/
def image [DecidableEq μ] (f : ν → μ) (s : UnorderedMap κ ν) : Finset μ :=
  (s.entries.map fun e => f e.2).toFinset

variable [DecidableEq κ]

/-- The values are changed one by one. -/
@[simp] theorem lookup_mapValues (f : κ → ν → μ) (s : UnorderedMap κ ν) (k : κ) :
    (mapValues f s).lookup k = (s.lookup k).map (f k) := by
  induction s using Finmap.induction_on with
  | H a => exact List.dlookup_map₂ k

/-- And the keys are not. -/
@[simp] theorem mem_mapValues (f : κ → ν → μ) (s : UnorderedMap κ ν) (k : κ) :
    k ∈ mapValues f s ↔ k ∈ s := by
  rw [← Finmap.lookup_isSome, ← Finmap.lookup_isSome]
  simp

/-- A field value is collected exactly when some key stores it. -/
@[simp] theorem mem_image [DecidableEq μ] (f : ν → μ) (s : UnorderedMap κ ν) (b : μ) :
    b ∈ image f s ↔ ∃ k v, s.lookup k = some v ∧ f v = b := by
  induction s using Finmap.induction_on with
  | H a =>
      simp only [image, Multiset.mem_toFinset, Finmap.lookup_toFinmap]
      constructor
      · intro hb
        obtain ⟨⟨k, v⟩, he, rfl⟩ := Multiset.mem_map.mp hb
        exact ⟨k, v, AList.mem_lookup_iff.mpr he, rfl⟩
      · rintro ⟨k, v, hv, rfl⟩
        exact Multiset.mem_map.mpr ⟨⟨k, v⟩, AList.mem_lookup_iff.mp hv, rfl⟩

end FiniteMap
