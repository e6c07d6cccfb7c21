import Rtems.Models.Watchdog.State

/-!
# The header is a queue by expiration time

The nodes of the tree in order are the scheduled watchdogs by expiration time, the
earlier insertion first on ties, and the cached node is the first of them. The three
shortcuts that maintain it are right: an insertion that only turned left is the new
first node, and the successor of the first node is the leftmost one below its right
child or else its parent.
-/

namespace Rtems.Watchdog

open SearchTree

variable {W : Type*} [DecidableEq W] {s : State W} {number : W → Nat} {w : W}

/-- The first watchdog is due before the second one. -/
def Sooner (expire number : W → Nat) (v w : W) : Prop :=
  expire v < expire w ∨ expire v = expire w ∧ number v < number w

/-- The scheduled watchdogs in the order of the tree. -/
def State.scheduled (s : State W) : List W := inorder s.header.watchdogs

/-- The tree is in order and knows its first node. -/
structure Queue (s : State W) (number : W → Nat) : Prop where
  sorted : s.scheduled.Pairwise (Sooner s.expire number)
  mem_iff : ∀ w, w ∈ s.scheduled ↔ s.isScheduled w = true
  first : s.header.first = s.scheduled.head?

omit [DecidableEq W] in
theorem Sooner.irrefl (expire : W → Nat) (w : W) : ¬ Sooner expire number w w := by
  simp [Sooner]

section

variable (h : Queue s number)
include h

omit [DecidableEq W] in
theorem Queue.nodup : s.scheduled.Nodup := by
  refine h.sorted.imp ?_
  rintro v w hsooner rfl
  exact Sooner.irrefl _ _ hsooner

omit [DecidableEq W] in
/-- The first watchdog is due before every other one. -/
theorem Queue.sooner_of_first (hfirst : s.header.first = some w) : s.isScheduled w = true ∧
      ∀ v, s.isScheduled v = true → v ≠ w → Sooner s.expire number w v := by
  obtain ⟨rest, hrest⟩ := List.head?_eq_some_iff.mp (h.first.symm.trans hfirst)
  refine ⟨(h.mem_iff w).mp (by simp [hrest]), fun v hv hne => ?_⟩
  have hmem : v ∈ w :: rest := hrest ▸ (h.mem_iff v).mpr hv
  have hsorted := h.sorted
  rw [hrest, List.pairwise_cons] at hsorted
  exact hsorted.1 v ((List.mem_cons.mp hmem).resolve_left hne)

omit [DecidableEq W] in
/-- There is a first watchdog exactly if one is scheduled. -/
theorem Queue.first_eq_none_iff : s.header.first = none ↔ ∀ w, s.isScheduled w = false := by
  rw [h.first, List.head?_eq_none_iff, List.eq_nil_iff_forall_not_mem]
  refine forall_congr' fun w => ?_
  rw [h.mem_iff, Bool.not_eq_true]

/-- The list after an insertion. -/
theorem scheduled_watchdogInsert (rb : RedBlack W) (w : W) (expire : Nat) :
    (watchdogInsert rb s w expire).scheduled =
        insertBefore (fun v => decide (expire < s.expire v)) w s.scheduled ∧
      (watchdogInsert rb s w expire).header.first =
        if s.scheduled.all (fun v => decide (expire < s.expire v)) then some w
        else s.header.first := by
  have hsplits : Splits (fun v => decide (expire < s.expire v)) s.scheduled := by
    refine h.sorted.imp ?_
    intro v w hsooner hv
    simp only [decide_eq_true_eq] at hv ⊢
    rcases hsooner with hlt | ⟨heq, -⟩ <;> omega
  refine ⟨?_, first_addLeaf (some w) hsplits⟩
  refine (rb.inorder_insertColor _).trans ?_
  exact inorder_addLeaf (some w) hsplits

/-- Inserting an inactive watchdog, with a number larger than all others. -/
theorem Queue.insert (rb : RedBlack W) (hw : s.isScheduled w = false)
    (expire : Nat) {n : Nat} (hn : ∀ v, s.isScheduled v = true → number v < n) :
    Queue (watchdogInsert rb s w expire) (Function.update number w n) := by
  obtain ⟨hlist, hfirst⟩ := scheduled_watchdogInsert h rb w expire
  have hne {v : W} (hv : v ∈ s.scheduled) : v ≠ w := by
    rintro rfl
    rw [h.mem_iff, hw] at hv
    exact Bool.false_ne_true hv
  refine ⟨?_, fun v => ?_, ?_⟩
  · rw [hlist]
    refine pairwise_insertBefore ?_ ?_ ?_ ?_
    · refine h.sorted.imp_of_mem ?_
      intro u v hu hv hsooner
      simpa [Sooner, watchdogInsert, hne hu, hne hv] using hsooner
    · refine h.sorted.imp ?_
      intro u v hsooner hu
      simp only [decide_eq_true_eq] at hu ⊢
      rcases hsooner with hlt | ⟨heq, -⟩ <;> omega
    · intro v hv hlt
      left
      simpa [watchdogInsert, hne hv] using hlt
    · intro v hv hle
      have hle : s.expire v ≤ expire := by simpa using hle
      have hlt := hn v ((h.mem_iff v).mp hv)
      simp only [Sooner, watchdogInsert, Function.update_of_ne (hne hv), Function.update_self]
      omega
  · rw [hlist, mem_insertBefore, h.mem_iff]
    by_cases hv : v = w
    · simp [hv, watchdogInsert]
    · simp [hv, watchdogInsert]
  · rw [hfirst, hlist, h.first]
    cases hs : s.scheduled with
    | nil => simp
    | cons v rest =>
      have hsorted := h.sorted
      rw [hs, List.pairwise_cons] at hsorted
      by_cases hlt : expire < s.expire v
      · have hall : (v :: rest).all (fun u => decide (expire < s.expire u)) = true := by
          simp only [List.all_eq_true, List.mem_cons, decide_eq_true_eq]
          rintro u (rfl | hu)
          · exact hlt
          · rcases hsorted.1 u hu with hlt' | ⟨heq, -⟩ <;> omega
        simp [hall, insertBefore, hlt]
      · simp [insertBefore, hlt]

/-- Taking a scheduled watchdog out, once the first node is the one that remains. -/
theorem Queue.deactivate (rb : RedBlack W) (hw : s.isScheduled w = true)
    {first : Option W} (hfirst : first = (s.scheduled.erase w).head?) :
    Queue (deactivate rb { s with header := { s.header with first } } w) number := by
  have hlist : (Watchdog.deactivate rb { s with header := { s.header with first } } w).scheduled =
      s.scheduled.erase w := rb.inorder_extract _ w ((h.mem_iff w).mpr hw)
  refine ⟨?_, fun v => ?_, ?_⟩
  · rw [hlist]
    exact h.sorted.sublist List.erase_sublist
  · rw [hlist, h.nodup.mem_erase_iff, h.mem_iff]
    by_cases hv : v = w
    · simp [hv, Watchdog.deactivate]
    · simp [hv, Watchdog.deactivate]
  · rw [hlist]
    exact hfirst

theorem Queue.nextFirst (hfirst : s.header.first = some w) :
    (watchdogNextFirst s.header w).first = (s.scheduled.erase w).head? := by
  obtain ⟨rest, hrest⟩ := List.head?_eq_some_iff.mp (h.first.symm.trans hfirst)
  rw [watchdogNextFirst, nextFirst_eq none hrest h.nodup, hrest]
  simp

/-- Removing a watchdog. -/
theorem Queue.remove (rb : RedBlack W) (hw : s.isScheduled w = true) :
    Queue (watchdogRemove rb s w) number := by
  rw [watchdogRemove, if_pos hw]
  by_cases hfirst : s.header.first = some w
  · simp only [hfirst, if_true]
    exact h.deactivate rb hw (h.nextFirst hfirst)
  · simp only [hfirst, if_false]
    refine h.deactivate rb hw ?_
    rw [h.first] at hfirst ⊢
    cases hs : s.scheduled with
    | nil => simp
    | cons v rest =>
      have hne : v ≠ w := by simpa [hs] using hfirst
      rw [List.erase_cons_tail (by simpa using hne)]
      rfl

/-- An iteration fires the first watchdog if it is due, and otherwise none is due. -/
theorem tickleIteration_spec (rb : RedBlack W) (now : Nat) :
    (∃ w s', tickleIteration rb s now = some (w, s') ∧ s.header.first = some w ∧
      s.expire w ≤ now ∧ s'.expire = s.expire ∧
      s'.isScheduled = Function.update s.isScheduled w false ∧ Queue s' number) ∨
    tickleIteration rb s now = none ∧ ∀ v, s.isScheduled v = true → now < s.expire v := by
  cases hfirst : s.header.first with
  | none =>
    right
    refine ⟨by rw [tickleIteration, hfirst], fun v hv => ?_⟩
    rw [h.first_eq_none_iff.mp hfirst v] at hv
    exact absurd hv Bool.false_ne_true
  | some w =>
    obtain ⟨hw, hsooner⟩ := h.sooner_of_first hfirst
    by_cases hdue : s.expire w ≤ now
    · left
      refine ⟨w, Watchdog.deactivate rb { s with header := watchdogNextFirst s.header w } w,
        by simp only [tickleIteration, hfirst, if_pos hdue], rfl, hdue, rfl, rfl, ?_⟩
      exact h.deactivate rb hw (h.nextFirst hfirst)
    · right
      refine ⟨by simp only [tickleIteration, hfirst, if_neg hdue], fun v hv => ?_⟩
      by_cases hv' : v = w
      · rw [hv']
        omega
      · rcases hsooner v hv hv' with hlt | ⟨heq, -⟩ <;> omega

end

end Rtems.Watchdog
