import Mathlib.Data.List.Sort

/-!
# Binary search in a table sorted by a key

The search halves an interval of the table that contains every entry with the key. In a table
with ascending keys it finds the entry with the key, if there is one.
-/

namespace Rtems

variable {α : Type*} (key : α → Nat)

/-- Search the entries from `lo` to below `hi`, with a bound on the number of passes. -/
def bsearchLoop (table : List α) (k : Nat) : Nat → Nat → Nat → Option Nat
  | 0, _, _ => none
  | fuel + 1, lo, hi =>
    if lo < hi then
      let mid := lo + (hi - lo) / 2
      match table[mid]? with
      | none => none
      | some entry =>
        if key entry < k then bsearchLoop table k fuel (mid + 1) hi
        else if k < key entry then bsearchLoop table k fuel lo mid
        else some mid
    else none

/-- The index of the entry with a key among the first `n` entries. -/
def bsearch (table : List α) (n k : Nat) : Option Nat :=
  bsearchLoop key table k (n + 1) 0 n

variable {key} {table : List α} {n k : Nat}

/-- The first entries have ascending keys. -/
def Ascending (key : α → Nat) (table : List α) (n : Nat) : Prop :=
  ∀ i j a b, i < j → j < n → table[i]? = some a → table[j]? = some b → key a < key b

section

variable (hsorted : Ascending key table n) (hlen : n ≤ table.length)
include hsorted hlen

/-- The loop finds the entry with the key if every such entry lies in the interval. -/
theorem bsearchLoop_spec {fuel lo hi : Nat} (hhi : hi ≤ n) (hfuel : hi - lo < fuel)
    (hinside : ∀ i a, i < n → table[i]? = some a → key a = k → lo ≤ i ∧ i < hi) :
    match bsearchLoop key table k fuel lo hi with
    | some i => i < n ∧ ∃ a, table[i]? = some a ∧ key a = k
    | none => ∀ i a, i < n → table[i]? = some a → key a ≠ k := by
  induction fuel generalizing lo hi with
  | zero => omega
  | succ fuel ih =>
    by_cases hactive : lo < hi
    · obtain ⟨mid, hmid⟩ := @exists_eq _ (lo + (hi - lo) / 2)
      have hlt : mid < table.length := by omega
      have hget := List.getElem?_eq_getElem hlt
      simp only [bsearchLoop, if_pos hactive, ← hmid, hget]
      by_cases hless : key table[mid] < k
      · rw [if_pos hless]
        apply ih hhi (by omega)
        intro i a hi' ha hk
        have hbounds := hinside i a hi' ha hk
        refine ⟨?_, hbounds.2⟩
        rcases Nat.lt_trichotomy i mid with hbefore | rfl | hbehind
        · have := hsorted i mid a _ hbefore (by omega) ha hget
          omega
        · obtain rfl := Option.some.inj (hget.symm.trans ha)
          omega
        · exact hbehind
      · rw [if_neg hless]
        by_cases hmore : k < key table[mid]
        · rw [if_pos hmore]
          apply ih (by omega) (by omega)
          intro i a hi' ha hk
          have hbounds := hinside i a hi' ha hk
          refine ⟨hbounds.1, ?_⟩
          rcases Nat.lt_trichotomy i mid with hbefore | rfl | hbehind
          · exact hbefore
          · obtain rfl := Option.some.inj (hget.symm.trans ha)
            omega
          · have := hsorted mid i _ a hbehind hi' hget ha
            omega
        · rw [if_neg hmore]
          exact ⟨by omega, table[mid], hget, by omega⟩
    · simp only [bsearchLoop, if_neg hactive]
      intro i a hi' ha hk
      have hbounds := hinside i a hi' ha hk
      omega

/-- The search over the whole table. -/
theorem bsearch_spec : match bsearch key table n k with
    | some i => i < n ∧ ∃ a, table[i]? = some a ∧ key a = k
    | none => ∀ i a, i < n → table[i]? = some a → key a ≠ k :=
  bsearchLoop_spec hsorted hlen (Nat.le_refl n) (Nat.lt_succ_self n)
    (fun i _ hi _ _ => ⟨Nat.zero_le i, hi⟩)

/-- An entry that the search returns has the key. -/
theorem bsearch_some {i : Nat}
    (h : bsearch key table n k = some i) : i < n ∧ ∃ a, table[i]? = some a ∧ key a = k := by
  have hspec := bsearch_spec (k := k) hsorted hlen
  rw [h] at hspec
  exact hspec

/-- If the search returns nothing then no entry has the key. -/
theorem bsearch_none
    (h : bsearch key table n k = none) : ∀ i a, i < n → table[i]? = some a → key a ≠ k := by
  have hspec := bsearch_spec (k := k) hsorted hlen
  rw [h] at hspec
  exact hspec

end

end Rtems
