import Mathlib.Data.BitVec

/-!
# Patches of a memory

A memory is a function of the address. A patch overwrites a segment of it.
-/

namespace Rtems

variable {β : Type*}

/-- Overwrite the `n` places from `a` on with the data. -/
def patch (m : Nat → β) (a : Nat) (data : Nat → β) (n : Nat) : Nat → β :=
  fun p => if a ≤ p ∧ p < a + n then data (p - a) else m p

variable {m : Nat → β} {a n p : Nat} {data : Nat → β}

/-- Inside of the segment there is the data. -/
theorem patch_inside (m : Nat → β) (data : Nat → β) (h₁ : a ≤ p) (h₂ : p < a + n) :
    patch m a data n p = data (p - a) :=
  if_pos ⟨h₁, h₂⟩

/-- Outside of the segment nothing changes. -/
theorem patch_outside (m : Nat → β) (data : Nat → β) (h : p < a ∨ a + n ≤ p) :
    patch m a data n p = m p :=
  if_neg (by omega)

/-- The data from the start of the segment on. -/
theorem patch_add (m : Nat → β) (data : Nat → β) {j : Nat} (h : j < n) :
    patch m a data n (a + j) = data j := by
  rw [patch_inside m data (Nat.le_add_right a j) (Nat.add_lt_add_left h a),
    Nat.add_sub_cancel_left]

@[simp] theorem patch_zero (m : Nat → β) (a : Nat) (data : Nat → β) : patch m a data 0 = m := by
  funext p
  exact patch_outside m data (by omega)

/-- A patch behind a patch goes on with it. -/
theorem patch_patch (m : Nat → β) (a : Nat) (data : Nat → β) (k n : Nat) :
    patch (patch m a data k) (a + k) (fun j => data (k + j)) n = patch m a data (k + n) := by
  funext p
  simp only [patch]
  by_cases h₁ : a + k ≤ p ∧ p < a + k + n
  · rw [if_pos h₁, if_pos (by omega)]
    congr 1
    omega
  · rw [if_neg h₁]
    by_cases h₂ : a ≤ p ∧ p < a + k
    · rw [if_pos h₂, if_pos (by omega)]
    · rw [if_neg h₂, if_neg (by omega)]

/-- The segment of a memory as a list. -/
def segment (m : Nat → β) (a n : Nat) : List β :=
  (List.range n).map fun j => m (a + j)

@[simp] theorem length_segment (m : Nat → β) (a n : Nat) : (segment m a n).length = n := by
  simp [segment]

/-- A segment goes on with the segment behind it. -/
theorem segment_append (m : Nat → β) (a k n : Nat) :
    segment m a k ++ segment m (a + k) n = segment m a (k + n) := by
  simp only [segment, List.range_add, List.map_append, List.map_map]
  congr 1
  apply List.map_congr_left
  intro j _
  simp [Nat.add_assoc]

/-- Equal places give equal segments. -/
theorem segment_congr {m' : Nat → β} {a' : Nat} (h : ∀ j, j < n → m (a + j) = m' (a' + j)) :
    segment m a n = segment m' a' n := by
  apply List.map_congr_left
  intro j hj
  exact h j (List.mem_range.mp hj)

end Rtems
