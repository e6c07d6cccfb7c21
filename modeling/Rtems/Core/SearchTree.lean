import Rtems.Core.OrderedList
import Mathlib.Data.Tree.Basic

/-!
# Search trees with a cached first node

The operations of a binary search tree that depend on its shape: the descent that adds
a leaf and notices whether it ever turned right, the leftmost node, and the successor of
the leftmost node through its right child or its parent. Each of them is described by
the list of the nodes in order, which a rebalancing keeps.
-/

namespace Rtems.SearchTree

open BinaryTree

variable {α : Type*}

/-- The nodes in order. -/
def inorder : BinaryTree α → List α
  | nil => []
  | node a l r => inorder l ++ a :: inorder r

/-- Follow the left children to the end. -/
def leftmost : BinaryTree α → Option α
  | nil => none
  | node a nil _ => some a
  | node _ (node b l r) _ => leftmost (node b l r)

/-- Add a node below a leaf, turning left at the nodes that it comes before. The second
component is `newFirst` as long as the descent turns left only and `oldFirst` otherwise. -/
def addLeaf (before : α → Bool) (x : α) (oldFirst : Option α) :
    BinaryTree α → Option α → BinaryTree α × Option α
  | nil, newFirst => (node x nil nil, newFirst)
  | node a l r, newFirst =>
    if before a then
      let (l, first) := addLeaf before x oldFirst l newFirst
      (node a l r, first)
    else
      let (r, first) := addLeaf before x oldFirst r oldFirst
      (node a l r, first)

/-- The parent and the right child of a node. -/
def nodeAt [DecidableEq α] (parent : Option α) :
    BinaryTree α → α → Option (Option α × BinaryTree α)
  | nil, _ => none
  | node a l r, x =>
    if a = x then some (parent, r)
    else (nodeAt (some a) l x).or (nodeAt (some a) r x)

/-- The leftmost node of the right child, or else the parent. -/
def nextFirst [DecidableEq α] (parent : Option α) (t : BinaryTree α) (x : α) : Option α :=
  (nodeAt parent t x).bind fun (parent, right) => (leftmost right).or parent

/-- The leftmost node is the first one. -/
theorem leftmost_eq_head? (t : BinaryTree α) : leftmost t = (inorder t).head? := by
  fun_induction leftmost t with
  | case1 => rfl
  | case2 a r => rfl
  | case3 a b l r _ ih =>
    rw [ih]
    simp [inorder]

/-- The nodes at which the descent turns left are at the end. -/
def Splits (before : α → Bool) (l : List α) : Prop :=
  l.Pairwise fun a b => before a = true → before b = true

variable {before : α → Bool}

/-- An insertion passes the elements it does not come before. -/
theorem insertBefore_append_of_forall {x : α} {l l' : List α} (h : ∀ a ∈ l, before a = false) :
    insertBefore before x (l ++ l') = l ++ insertBefore before x l' := by
  induction l with
  | nil => rfl
  | cons a l ih =>
    have ha : before a = false := h a List.mem_cons_self
    simp only [List.cons_append, insertBefore, ha]
    rw [ih fun b hb => h b (List.mem_cons_of_mem a hb)]
    rfl

/-- An insertion does not pass an element it comes before. -/
theorem insertBefore_append_cons {x a : α} {l l' : List α} (ha : before a = true) :
    insertBefore before x (l ++ a :: l') = insertBefore before x l ++ a :: l' := by
  induction l with
  | nil => simp [insertBefore, ha]
  | cons b l ih =>
    simp only [List.cons_append, insertBefore]
    split
    · rfl
    · rw [ih]
      rfl

/-- An insertion where the predicate turns keeps an order that agrees with it. -/
theorem pairwise_insertBefore {R : α → α → Prop} {x : α} {l : List α}
    (hl : l.Pairwise R) (hsplits : Splits before l) (htrue : ∀ a ∈ l, before a = true → R x a)
    (hfalse : ∀ a ∈ l, before a = false → R a x) : (insertBefore before x l).Pairwise R := by
  induction l with
  | nil => exact List.pairwise_singleton R x
  | cons a l ih =>
    obtain ⟨hal, hl⟩ := List.pairwise_cons.mp hl
    obtain ⟨hsplit, hsplits⟩ := List.pairwise_cons.mp hsplits
    rw [insertBefore]
    cases ha : before a with
    | true =>
      refine List.pairwise_cons.mpr ⟨fun b hb => ?_, List.pairwise_cons.mpr ⟨hal, hl⟩⟩
      rcases List.mem_cons.mp hb with rfl | hb'
      · exact htrue b List.mem_cons_self ha
      · exact htrue b hb (hsplit b hb' ha)
    | false =>
      refine List.pairwise_cons.mpr ⟨fun b hb => ?_, ih hl hsplits
        (fun b hb => htrue b (List.mem_cons_of_mem a hb))
        (fun b hb => hfalse b (List.mem_cons_of_mem a hb))⟩
      rcases mem_insertBefore.mp hb with rfl | hb
      · exact hfalse a List.mem_cons_self ha
      · exact hal b hb

section

variable {x : α} {oldFirst : Option α} {t : BinaryTree α} (newFirst : Option α)
  (h : Splits before (inorder t))
include newFirst h

/-- The descent puts the node into its place in order. -/
theorem inorder_addLeaf :
    inorder (addLeaf before x oldFirst t newFirst).1 = insertBefore before x (inorder t) := by
  induction t generalizing newFirst with
  | nil => rfl
  | node a l r ihl ihr =>
    obtain ⟨hl, hr, hlr⟩ := List.pairwise_append.mp h
    obtain ⟨har, hr⟩ := List.pairwise_cons.mp hr
    by_cases ha : before a = true
    · simp only [addLeaf, ha, if_true, inorder]
      rw [ihl newFirst hl, insertBefore_append_cons ha]
    · have hleft : ∀ b ∈ inorder l ++ [a], before b = false := by
        intro b hb
        rcases List.mem_append.mp hb with hb | hb
        · refine Bool.eq_false_iff.mpr fun htrue => ha ?_
          exact hlr b hb a List.mem_cons_self htrue
        · rw [List.mem_singleton.mp hb]
          exact Bool.eq_false_iff.mpr ha
      simp only [addLeaf, ha, inorder]
      have happend : inorder l ++ a :: inorder r = (inorder l ++ [a]) ++ inorder r := by simp
      rw [happend, insertBefore_append_of_forall hleft, ← ihr oldFirst hr]
      simp [inorder]

/-- The cached first node after the descent. -/
theorem first_addLeaf :
    (addLeaf before x oldFirst t newFirst).2 =
      if (inorder t).all before then newFirst else oldFirst := by
  induction t generalizing newFirst with
  | nil => rfl
  | node a l r ihl ihr =>
    obtain ⟨hl, hr, -⟩ := List.pairwise_append.mp h
    obtain ⟨har, hr⟩ := List.pairwise_cons.mp hr
    by_cases ha : before a = true
    · have hall : (inorder r).all before = true := List.all_eq_true.mpr fun b hb => har b hb ha
      simp only [addLeaf, ha, if_true, inorder]
      rw [ihl newFirst hl]
      simp [ha, hall]
    · simp only [addLeaf, ha, inorder]
      simp [ihr oldFirst hr, ha]

end

/-- The successor of the leftmost node. -/
theorem nextFirst_eq [DecidableEq α] {t : BinaryTree α} {x : α} {rest : List α}
    (parent : Option α) (h : inorder t = x :: rest) (hnodup : (inorder t).Nodup) :
    nextFirst parent t x = rest.head?.or parent := by
  induction t generalizing parent rest with
  | nil => simp [inorder] at h
  | node a l r ihl _ =>
    cases hl : inorder l with
    | nil =>
      rw [inorder, hl, List.nil_append, List.cons.injEq] at h
      obtain ⟨rfl, rfl⟩ := h
      simp [nextFirst, nodeAt, leftmost_eq_head?]
    | cons b rest' =>
      rw [inorder, hl, List.cons_append, List.cons.injEq] at h
      obtain ⟨rfl, rfl⟩ := h
      rw [inorder, hl] at hnodup
      have hne : a ≠ b := by
        rintro rfl
        exact (List.nodup_cons.mp hnodup).1 (by simp)
      have hsub : (b :: rest').Nodup := (List.nodup_append.mp hnodup).1
      have ih := ihl (some a) hl (hl ▸ hsub)
      obtain ⟨⟨p, right⟩, hfound⟩ : ∃ found, nodeAt (some a) l b = some found := by
        cases hnode : nodeAt (some a) l b with
        | none =>
          rw [nextFirst, hnode] at ih
          cases rest' <;> simp at ih
        | some found => exact ⟨found, rfl⟩
      have hroot : nextFirst parent (node a l r) b = nextFirst (some a) l b := by
        simp [nextFirst, nodeAt, hne, hfound]
      rw [hroot, ih]
      cases rest' <;> simp

end Rtems.SearchTree
