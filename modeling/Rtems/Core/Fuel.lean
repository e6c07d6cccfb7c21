import Mathlib.Data.Option.Basic
import Mathlib.Order.Nat

/-!
# Computations bounded by fuel

A loop without an obvious bound is modelled with a number of steps after which it gives
up. Such a computation is steady: once it returns, more fuel does not change the result.
So it has at most one result, and enough fuel finds it.
-/

namespace Rtems

variable {α β : Type*} {f : Nat → Option α} {r : α}

/-- More fuel does not change a result. -/
def Steady (f : Nat → Option α) : Prop :=
  ∀ ⦃n m : Nat⦄ ⦃r : α⦄, n ≤ m → f n = some r → f m = some r

/-- Enough fuel gives the result. -/
def Returns (f : Nat → Option α) (r : α) : Prop := ∃ n, ∀ m, n ≤ m → f m = some r

theorem steady_const (x : Option α) : Steady fun _ => x := fun _ _ _ _ h => h

theorem Steady.map (h : Steady f) (g : α → β) : Steady fun n => (f n).map g := by
  intro n m r hnm hr
  obtain ⟨a, ha, rfl⟩ := Option.map_eq_some_iff.mp hr
  exact Option.map_eq_some_iff.mpr ⟨a, h hnm ha, rfl⟩

/-- A steady computation has at most one result. -/
theorem Returns.eq_of_steady (h : Returns f r) (hf : Steady f) {n : Nat} {r' : α}
    (hr : f n = some r') : r' = r := by
  obtain ⟨k, hk⟩ := h
  have h₁ : f (max n k) = some r' := hf (le_max_left n k) hr
  have h₂ : f (max n k) = some r := hk _ (le_max_right n k)
  exact Option.some.inj (h₁.symm.trans h₂)

/-- A steady computation that returns for all large fuels returns one result. -/
theorem Steady.exists_returns (hf : Steady f) {P : α → Prop}
    (h : ∃ n, ∀ m, n ≤ m → ∃ r, f m = some r ∧ P r) : ∃ r, Returns f r ∧ P r := by
  obtain ⟨n, hn⟩ := h
  obtain ⟨r, hr, hP⟩ := hn n le_rfl
  exact ⟨r, ⟨n, fun m hm => hf hm hr⟩, hP⟩

theorem Returns.map (h : Returns f r) (g : α → β) : Returns (fun n => (f n).map g) (g r) := by
  obtain ⟨n, hn⟩ := h
  refine ⟨n, fun m hm => ?_⟩
  simp only [hn m hm, Option.map_some]

end Rtems
