import Mathlib.Data.List.Perm.Basic
import Mathlib.Data.List.Pairwise
import Mathlib.Order.Lattice

/-!
# Chains and trees ordered by a key

An ordered chain is searched from its first node; the new node goes before the
first node accepted by the order predicate. A search tree with a strict or a weak
comparison has the same in-order effect. Both are modelled by `insertBefore`. The
lemmas say what an insertion or an extraction does to the order, to the set of
nodes and to the group of nodes with one key.
-/

namespace Rtems

/-- Insert `x` before the first element accepted by `before`, or at the end. -/
def insertBefore {α : Type*} (before : α → Bool) (x : α) : List α → List α
  | [] => [x]
  | y :: ys => if before y then x :: y :: ys else y :: insertBefore before x ys

/-- The keys do not decrease along the list. -/
def SortedBy {α κ : Type*} [LE κ] (key : α → κ) (l : List α) : Prop :=
  l.Pairwise fun a b => key a ≤ key b

section Insert

variable {α κ : Type*} {before : α → Bool} {x y : α} {l : List α}

@[simp] theorem insertBefore_nil : insertBefore before x [] = [x] := rfl

/-- Insertion adds exactly the new element. -/
theorem insertBefore_perm (before : α → Bool) (x : α) (l : List α) :
    (insertBefore before x l).Perm (x :: l) := by
  induction l with
  | nil => exact .refl _
  | cons y ys ih =>
    rw [insertBefore]
    split
    · exact .refl _
    · exact (ih.cons y).trans (.swap x y ys)

@[simp] theorem mem_insertBefore :
    y ∈ insertBefore before x l ↔ y = x ∨ y ∈ l := by
  rw [(insertBefore_perm before x l).mem_iff, List.mem_cons]

@[simp] theorem length_insertBefore : (insertBefore before x l).length = l.length + 1 := by
  simpa using (insertBefore_perm before x l).length_eq

theorem insertBefore_ne_nil : insertBefore before x l ≠ [] := by
  intro h
  have := congrArg List.length h
  simp at this

theorem nodup_insertBefore (hx : x ∉ l) (hl : l.Nodup) : (insertBefore before x l).Nodup :=
  (insertBefore_perm before x l).nodup_iff.mpr (List.nodup_cons.mpr ⟨hx, hl⟩)

/-- Only the predicate on the list matters. -/
theorem insertBefore_congr {before' : α → Bool} (h : ∀ y ∈ l, before y = before' y) :
    insertBefore before x l = insertBefore before' x l := by
  induction l with
  | nil => rfl
  | cons y ys ih =>
    rw [insertBefore, insertBefore, h y (by simp), ih fun z hz => h z (by simp [hz])]

/-- If no element is accepted the new one becomes the last. -/
theorem insertBefore_eq_append (h : ∀ y ∈ l, before y = false) :
    insertBefore before x l = l ++ [x] := by
  induction l with
  | nil => rfl
  | cons y ys ih =>
    simp [insertBefore, h y, ih fun z hz => h z (by simp [hz])]

/-- If every element is accepted the new one becomes the first. -/
theorem insertBefore_eq_cons (h : ∀ y ∈ l, before y = true) :
    insertBefore before x l = x :: l := by
  cases l with
  | nil => rfl
  | cons y ys => simp [insertBefore, h y]

end Insert

section Sorted

variable {α κ : Type*} [LinearOrder κ] {key : α → κ} {x y : α} {l : List α}

@[simp] theorem sortedBy_nil : SortedBy key [] := List.Pairwise.nil

theorem sortedBy_cons :
    SortedBy key (y :: l) ↔ (∀ z ∈ l, key y ≤ key z) ∧ SortedBy key l :=
  List.pairwise_cons

theorem SortedBy.tail (h : SortedBy key (y :: l)) : SortedBy key l := (sortedBy_cons.mp h).2

/-- The first element of a sorted list has a least key. -/
theorem SortedBy.head_le (h : SortedBy key (y :: l)) {z : α} (hz : z ∈ y :: l) :
    key y ≤ key z := by
  rcases List.mem_cons.mp hz with rfl | hz
  · exact le_rfl
  · exact (sortedBy_cons.mp h).1 z hz

/-- The last element of a sorted list has a greatest key. -/
theorem SortedBy.le_last (h : SortedBy key (l ++ [y])) {z : α} (hz : z ∈ l ++ [y]) :
    key z ≤ key y := by
  rcases List.mem_append.mp hz with hz | hz
  · exact (List.pairwise_append.mp h).2.2 z hz y (by simp)
  · rw [List.mem_singleton.mp hz]

section

variable (h : SortedBy key l)
include h

theorem SortedBy.sublist {l' : List α} (hl : l'.Sublist l) :
    SortedBy key l' :=
  List.Pairwise.sublist hl h

theorem SortedBy.erase [DecidableEq α] (x : α) :
    SortedBy key (l.erase x) :=
  h.sublist List.erase_sublist

/-- Sortedness only depends on the keys of the members. -/
theorem SortedBy.congr {key' : α → κ} (hk : ∀ z ∈ l, key z = key' z) :
    SortedBy key' l := by
  refine List.Pairwise.imp_of_mem ?_ h
  intro a b ha hb hab
  rwa [← hk a ha, ← hk b hb]

/-- Insertion keeps the order when accepted elements are not smaller and rejected
elements are not greater than the new one. -/
theorem SortedBy.insertBefore {before : α → Bool}
    (ht : ∀ y, before y = true → key x ≤ key y) (hf : ∀ y, before y = false → key y ≤ key x) :
    SortedBy key (insertBefore before x l) := by
  induction l with
  | nil => exact sortedBy_cons.mpr ⟨by simp, sortedBy_nil⟩
  | cons y ys ih =>
    rw [Rtems.insertBefore]
    split
    · rename_i hb
      refine sortedBy_cons.mpr ⟨?_, h⟩
      intro z hz
      exact (ht y hb).trans (h.head_le hz)
    · rename_i hb
      refine sortedBy_cons.mpr ⟨?_, ih h.tail⟩
      intro z hz
      rcases mem_insertBefore.mp hz with rfl | hz
      · exact hf y (by simpa using hb)
      · exact (sortedBy_cons.mp h).1 z hz

/-- Insertion after the nodes of equal key. -/
theorem SortedBy.insert_fifo :
    SortedBy key (Rtems.insertBefore (fun y => decide (key x < key y)) x l) := by
  refine h.insertBefore ?_ ?_
  · intro y hy
    exact (of_decide_eq_true hy).le
  · intro y hy
    exact not_lt.mp (of_decide_eq_false hy)

/-- Insertion before the nodes of equal key. -/
theorem SortedBy.insert_lifo :
    SortedBy key (Rtems.insertBefore (fun y => decide (key x ≤ key y)) x l) := by
  refine h.insertBefore ?_ ?_
  · intro y hy
    exact of_decide_eq_true hy
  · intro y hy
    exact (not_le.mp (of_decide_eq_false hy)).le

/-- A strict insertion puts the new node at the end of its group. -/
theorem filter_insert_fifo (p : κ) :
    (Rtems.insertBefore (fun y => decide (key x < key y)) x l).filter (fun y => key y = p) =
      l.filter (fun y => key y = p) ++ if key x = p then [x] else [] := by
  induction l with
  | nil => by_cases hx : key x = p <;> simp [hx]
  | cons y ys ih =>
    rw [Rtems.insertBefore]
    split
    · rename_i hb
      have hb : key x < key y := of_decide_eq_true hb
      by_cases hx : key x = p
      · have hnil : (y :: ys).filter (fun z => key z = p) = [] := by
          rw [List.filter_eq_nil_iff]
          intro z hz hzp
          have := hb.trans_le (h.head_le hz)
          rw [hx, of_decide_eq_true hzp] at this
          exact lt_irrefl _ this
        rw [List.filter_cons_of_pos (by simp [hx]), hnil]
        simp [hx]
      · rw [List.filter_cons_of_neg (by simp [hx])]
        simp [hx]
    · rw [List.filter_cons, List.filter_cons, ih h.tail]
      split <;> simp

/-- A weak insertion puts the new node at the front of its group. -/
theorem filter_insert_lifo (p : κ) :
    (Rtems.insertBefore (fun y => decide (key x ≤ key y)) x l).filter (fun y => key y = p) =
      (if key x = p then [x] else []) ++ l.filter (fun y => key y = p) := by
  induction l with
  | nil => by_cases hx : key x = p <;> simp [hx]
  | cons y ys ih =>
    rw [Rtems.insertBefore]
    split
    · by_cases hx : key x = p
      · rw [List.filter_cons_of_pos (by simp [hx])]
        simp [hx]
      · rw [List.filter_cons_of_neg (by simp [hx])]
        simp [hx]
    · rename_i hb
      have hb : key y < key x := by simpa using hb
      rw [List.filter_cons, List.filter_cons, ih h.tail]
      by_cases hy : key y = p
      · have hx : key x ≠ p := by
          intro hx
          rw [hx, hy] at hb
          exact lt_irrefl _ hb
        simp [hy, hx]
      · simp [hy]

end

end Sorted

end Rtems
