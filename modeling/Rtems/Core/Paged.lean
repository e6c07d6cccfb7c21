import Mathlib.Algebra.Order.Group.Nat
import Mathlib.Data.List.Nodup

/-!
# Lists kept in pages

A list of numbers is kept in a root of a few slots while it fits there, and otherwise in
pages of a fixed number of entries. The pages of a list form a list again, which may be
kept in the same way, one level up. An element is added to or removed from the end of the
list by writing the root, by moving between the root and the first page, by adding or
dropping the last page, or by writing the last page.
-/

namespace Rtems.Paged

/-- The number of pages of a list: none while the list fits into the root. -/
def pagesFor (r p n : Nat) : Nat := if n ≤ r then 0 else (n + p - 1) / p

/-- The list `xs` is kept in the root, or in the pages `ys`. -/
structure Level {B : Type*} (r p : Nat) (root : Nat → B) (entry : B → Nat → B)
    (xs ys : List B) : Prop where
  pages : ys.length = pagesFor r p xs.length
  fits : xs.length ≤ r → ∀ i x, xs[i]? = some x → root i = x
  paged : r < xs.length → ∀ i x, xs[i]? = some x → ∃ y, ys[i / p]? = some y ∧ entry y (i % p) = x

section Count

variable {r p n : Nat} (hp : r < p)
include hp

/-- A list that has outgrown the root by one element has one page. -/
theorem pagesFor_succ_root : pagesFor r p (r + 1) = 1 := by
  have hdiv : (r + 1 + p - 1) / p = 1 := Nat.div_eq_of_lt_le (by omega) (by omega)
  rw [pagesFor, if_neg (by omega), hdiv]

/-- With all pages full, the next element needs a new page. -/
theorem pagesFor_of_mod_eq_zero (hn : r < n) (hmod : n % p = 0) :
    pagesFor r p n = n / p ∧ pagesFor r p (n + 1) = n / p + 1 := by
  obtain ⟨k, rfl⟩ := Nat.dvd_of_mod_eq_zero hmod
  have hpos : 0 < p := by omega
  have h1 : (p * k + p - 1) / p = k :=
    Nat.div_eq_of_lt_le (by rw [Nat.mul_comm]; omega) (by rw [Nat.succ_mul, Nat.mul_comm]; omega)
  have h2 : (p * k + 1 + p - 1) / p = k + 1 := by
    have : p * k + 1 + p - 1 = p * (k + 1) := by rw [Nat.mul_succ]; omega
    rw [this, Nat.mul_div_cancel_left _ hpos]
  rw [pagesFor, pagesFor, if_neg (by omega), if_neg (by omega), h1, h2,
    Nat.mul_div_cancel_left _ hpos]
  exact ⟨rfl, rfl⟩

/-- With room in the last page, the next element needs no new page. -/
theorem pagesFor_of_mod_ne_zero (hn : r < n) (hmod : n % p ≠ 0) :
    pagesFor r p n = n / p + 1 ∧ pagesFor r p (n + 1) = n / p + 1 := by
  have hdiv := Nat.div_add_mod n p
  have hlt := Nat.mod_lt n (show 0 < p by omega)
  have hnext : ∀ k, n + p ≤ k + n % p → k < n + 2 * p - n % p → k / p = n / p + 1 := by
    intro k hle hk
    apply Nat.div_eq_of_lt_le
    · rw [Nat.succ_mul, Nat.mul_comm]
      omega
    · rw [Nat.succ_mul, Nat.succ_mul, Nat.mul_comm]
      omega
  rw [pagesFor, pagesFor, if_neg (by omega), if_neg (by omega)]
  constructor
  · exact hnext _ (by omega) (by omega)
  · exact hnext _ (by omega) (by omega)

/-- The pages fit into the root exactly if the elements fit into its number of pages. -/
theorem pagesFor_le_iff (hr : 0 < r) : pagesFor r p n ≤ r ↔ n ≤ p * r := by
  have hmul : r ≤ p * r := Nat.le_mul_of_pos_left r (by omega)
  by_cases hn : n ≤ r
  · rw [pagesFor, if_pos hn]
    omega
  · rw [pagesFor, if_neg hn, Nat.div_le_iff_le_mul_add_pred (by omega)]
    omega

end Count

section Level

variable {B : Type*} {r p : Nat} {root root' : Nat → B} {entry entry' : B → Nat → B}
  {xs ys : List B} {x y : B}

/-- An empty list is kept by every root. -/
theorem Level.nil : Level r p root entry [] [] where
  pages := by simp [pagesFor]
  fits := by simp
  paged := by simp

/-- A short list in the root is kept without pages. -/
theorem Level.of_root (hn : xs.length ≤ r) (hroot : ∀ i x, xs[i]? = some x → root i = x) :
    Level r p root entry xs [] where
  pages := by rw [pagesFor, if_pos hn]; rfl
  fits := fun _ => hroot
  paged := fun hlt => by omega

/-- A list is still kept if neither the slots nor the pages it uses change. -/
theorem Level.congr (h : Level r p root entry xs ys)
    (hroot : xs.length ≤ r → ∀ i < xs.length, root' i = root i)
    (hentry : ∀ y ∈ ys, entry' y = entry y) : Level r p root' entry' xs ys where
  pages := h.pages
  fits hle i x hx := by
    rw [hroot hle i (List.getElem?_eq_some_iff.1 hx).1]
    exact h.fits hle i x hx
  paged hlt i x hx := by
    obtain ⟨y, hy, hxy⟩ := h.paged hlt i x hx
    exact ⟨y, hy, by rw [hentry y (List.mem_of_getElem? hy), hxy]⟩

/-- A list in the root has no pages. -/
theorem Level.pages_eq_nil (h : Level r p root entry xs ys) (hn : xs.length ≤ r) : ys = [] := by
  apply List.eq_nil_of_length_eq_zero
  rw [h.pages, pagesFor, if_pos hn]

/-- An element of a longer list is an old one or the last one. -/
theorem getElem?_concat_cases {i : Nat} {x' : B} (h : (xs ++ [x])[i]? = some x') :
    i < xs.length ∧ xs[i]? = some x' ∨ i = xs.length ∧ x = x' := by
  rcases Nat.lt_or_ge i xs.length with hi | hi
  · rw [List.getElem?_append_left hi] at h
    exact .inl ⟨hi, h⟩
  · have hlt : i < (xs ++ [x]).length := (List.getElem?_eq_some_iff.1 h).1
    obtain rfl : i = xs.length := by
      rw [List.length_append, List.length_singleton] at hlt
      omega
    exact .inr ⟨rfl, by simpa using h⟩

section

variable (h : Level r p root entry xs ys)
include h

/-- Add an element to a list in the root. -/
theorem Level.push_root (hn : xs.length < r)
    (hroot : ∀ i < xs.length, root' i = root i) (hx : root' xs.length = x) :
    Level r p root' entry' (xs ++ [x]) ys := by
  have hlength : (xs ++ [x]).length = xs.length + 1 := by simp
  refine ⟨?_, ?_, ?_⟩
  · rw [h.pages, hlength, pagesFor, pagesFor, if_pos (by omega), if_pos (by omega)]
  · intro _ i x' hx'
    rcases getElem?_concat_cases hx' with ⟨hi, hx'⟩ | ⟨rfl, rfl⟩
    · rw [hroot i hi]
      exact h.fits (by omega) i x' hx'
    · exact hx
  · intro hlt
    omega

/-- Add an element to a list that fills the root, moving it into a first page. -/
theorem Level.push_spill (hp : r < p) (hn : xs.length = r)
    (hpage : ∀ i < r, entry' y i = root i) (hx : entry' y r = x) :
    Level r p root' entry' (xs ++ [x]) (ys ++ [y]) := by
  obtain rfl := h.pages_eq_nil hn.le
  have hlength : (xs ++ [x]).length = r + 1 := by simp [hn]
  refine ⟨?_, ?_, ?_⟩
  · rw [hlength, pagesFor_succ_root hp]
    rfl
  · intro hle
    omega
  · intro _ i x' hx'
    have hi : i < r + 1 := hlength ▸ (List.getElem?_eq_some_iff.1 hx').1
    rw [Nat.div_eq_of_lt (by omega), Nat.mod_eq_of_lt (by omega)]
    refine ⟨y, rfl, ?_⟩
    rcases getElem?_concat_cases hx' with ⟨hi, hx'⟩ | ⟨rfl, rfl⟩
    · rw [hpage i (hn ▸ hi)]
      exact h.fits hn.le i x' hx'
    · rw [hn, hx]

/-- Add an element to a list whose pages are full, in a new page. -/
theorem Level.push_page (hp : r < p) (hn : r < xs.length)
    (hmod : xs.length % p = 0) (hkeep : ∀ y' ∈ ys, entry' y' = entry y') (hx : entry' y 0 = x) :
    Level r p root' entry' (xs ++ [x]) (ys ++ [y]) := by
  have hlength : (xs ++ [x]).length = xs.length + 1 := by simp
  obtain ⟨hold, hnew⟩ := pagesFor_of_mod_eq_zero hp hn hmod
  have hpages : ys.length = xs.length / p := h.pages.trans hold
  refine ⟨?_, ?_, ?_⟩
  · rw [hlength, hnew, List.length_append, hpages]
    rfl
  · intro hle
    omega
  · intro _ i x' hx'
    rcases getElem?_concat_cases hx' with ⟨hi, hx'⟩ | ⟨rfl, rfl⟩
    · obtain ⟨y', hy', hxy⟩ := h.paged hn i x' hx'
      have hlt := (List.getElem?_eq_some_iff.1 hy').1
      refine ⟨y', by rw [List.getElem?_append_left hlt, hy'], ?_⟩
      rw [hkeep y' (List.mem_of_getElem? hy'), hxy]
    · refine ⟨y, by simp [← hpages], ?_⟩
      rw [hmod, hx]

/-- Add an element to a list with room in its last page. -/
theorem Level.push_entry (hp : r < p) (hn : r < xs.length)
    (hmod : xs.length % p ≠ 0) (hnodup : ys.Nodup) (hy : ys[xs.length / p]? = some y)
    (hkeep : ∀ y' ∈ ys, ∀ i, ¬ (y' = y ∧ i = xs.length % p) → entry' y' i = entry y' i)
    (hx : entry' y (xs.length % p) = x) : Level r p root' entry' (xs ++ [x]) ys := by
  have hlength : (xs ++ [x]).length = xs.length + 1 := by simp
  obtain ⟨hold, hnew⟩ := pagesFor_of_mod_ne_zero hp hn hmod
  refine ⟨?_, ?_, ?_⟩
  · rw [hlength, hnew, h.pages, hold]
  · intro hle
    omega
  · intro _ i x' hx'
    rcases getElem?_concat_cases hx' with ⟨hi, hx'⟩ | ⟨rfl, rfl⟩
    · obtain ⟨y', hy', hxy⟩ := h.paged hn i x' hx'
      refine ⟨y', hy', ?_⟩
      rw [hkeep y' (List.mem_of_getElem? hy') (i % p), hxy]
      rintro ⟨rfl, hi'⟩
      have hdiv : i / p = xs.length / p :=
        (List.getElem?_inj (List.getElem?_eq_some_iff.1 hy').1 hnodup).1 (hy'.trans hy.symm)
      have h1 := Nat.div_add_mod i p
      have h2 := Nat.div_add_mod xs.length p
      rw [hdiv, hi'] at h1
      omega
    · exact ⟨y, hy, hx⟩

end

/-- Remove the last element of a list, which is alone in its page, with the page. -/
theorem Level.pop_page (h : Level r p root entry (xs ++ [x]) (ys ++ [y])) (hp : r < p)
    (hn : r < xs.length) (hmod : xs.length % p = 0) (hkeep : ∀ y' ∈ ys, entry' y' = entry y') :
    Level r p root' entry' xs ys := by
  have hlength : (xs ++ [x]).length = xs.length + 1 := by simp
  obtain ⟨hold, hnew⟩ := pagesFor_of_mod_eq_zero hp hn hmod
  have hpages := h.pages
  rw [hlength, hnew, List.length_append, List.length_singleton] at hpages
  refine ⟨?_, ?_, ?_⟩
  · rw [hold]
    omega
  · intro hle
    omega
  · intro _ i x' hx'
    have hi := (List.getElem?_eq_some_iff.1 hx').1
    obtain ⟨y', hy', hxy⟩ := h.paged (by omega) i x' (by rw [List.getElem?_append_left hi, hx'])
    have hlt : i / p < ys.length := by
      have hdiv : i / p < xs.length / p := by
        rw [Nat.div_lt_iff_lt_mul (by omega), Nat.div_mul_cancel (Nat.dvd_of_mod_eq_zero hmod)]
        exact hi
      omega
    rw [List.getElem?_append_left hlt] at hy'
    exact ⟨y', hy', by rw [hkeep y' (List.mem_of_getElem? hy'), hxy]⟩

section

variable (h : Level r p root entry (xs ++ [x]) ys)
include h

/-- Remove the last element of a list in the root. -/
theorem Level.pop_root (hn : xs.length < r)
    (hroot : ∀ i < xs.length, root' i = root i) : Level r p root' entry' xs ys := by
  have hlength : (xs ++ [x]).length = xs.length + 1 := by simp
  refine ⟨?_, ?_, ?_⟩
  · rw [h.pages, hlength, pagesFor, pagesFor, if_pos (by omega), if_pos (by omega)]
  · intro _ i x' hx'
    have hi := (List.getElem?_eq_some_iff.1 hx').1
    rw [hroot i hi]
    exact h.fits (by omega) i x' (by rw [List.getElem?_append_left hi, hx'])
  · intro hlt
    omega

/-- Remove the last element of a list that then fits into the root, moving it there. -/
theorem Level.pop_spill (hp : r < p)
    (hn : xs.length = r) :
    ∃ y, ys = [y] ∧ ∀ root' : Nat → B, (∀ i < r, root' i = entry y i) →
      Level r p root' entry' xs [] := by
  have hlength : (xs ++ [x]).length = r + 1 := by simp [hn]
  have hpages := h.pages
  rw [hlength, pagesFor_succ_root hp] at hpages
  obtain ⟨y, rfl⟩ := List.length_eq_one_iff.1 hpages
  refine ⟨y, rfl, fun root' hroot => ⟨?_, ?_, ?_⟩⟩
  · rw [hn, pagesFor, if_pos le_rfl]
    rfl
  · intro _ i x' hx'
    have hi := (List.getElem?_eq_some_iff.1 hx').1
    obtain ⟨y', hy', hxy⟩ := h.paged (by omega) i x' (by rw [List.getElem?_append_left hi, hx'])
    rw [Nat.div_eq_of_lt (by omega)] at hy'
    rw [Nat.mod_eq_of_lt (by omega)] at hxy
    have hyy : y = y' := by simpa using hy'
    rw [hroot i (by omega), hyy, hxy]
  · intro hlt
    omega

/-- Remove the last element of a list from a page that keeps other elements. -/
theorem Level.pop_entry (hp : r < p)
    (hn : r < xs.length) (hmod : xs.length % p ≠ 0) (hkeep : ∀ y' ∈ ys, entry' y' = entry y') :
    Level r p root' entry' xs ys := by
  have hlength : (xs ++ [x]).length = xs.length + 1 := by simp
  obtain ⟨hold, hnew⟩ := pagesFor_of_mod_ne_zero hp hn hmod
  refine ⟨?_, ?_, ?_⟩
  · rw [h.pages, hlength, hnew, hold]
  · intro hle
    omega
  · intro _ i x' hx'
    have hi := (List.getElem?_eq_some_iff.1 hx').1
    obtain ⟨y', hy', hxy⟩ := h.paged (by omega) i x' (by rw [List.getElem?_append_left hi, hx'])
    exact ⟨y', hy', by rw [hkeep y' (List.mem_of_getElem? hy'), hxy]⟩

end

end Level

end Rtems.Paged
