import Mathlib.Data.List.Chain
import Mathlib.Logic.Function.Iterate

/-!
# Linked rings

The nodes of a ring follow a head. The links lead from the head through the nodes and back to the
head; a link back leads from a node to the one before it.
-/

namespace Rtems

variable {α : Type*} {next prev : α → α} {head x : α} {nodes : List α}

/-- A chain whose back links lead to its head visits no node twice. -/
theorem nodup_of_backLinked (h : (head :: nodes).IsChain fun a b => prev b = a)
    (hhead : head ∉ nodes) : (head :: nodes).Nodup := by
  induction nodes using List.reverseRecOn with
  | nil => simp
  | append_singleton ys y ih =>
    have hys : (head :: ys).Nodup := by
      apply ih
      · exact (List.isChain_append.mp (List.cons_append ▸ h)).1
      · exact fun hm => hhead (List.mem_append_left _ hm)
    have hy : y ∉ head :: ys := by
      intro hmem
      have hne : y ≠ head := fun he => hhead (he ▸ List.mem_concat_self)
      obtain ⟨l, r, rfl⟩ := List.append_of_mem ((List.mem_cons.mp hmem).resolve_left hne)
      obtain ⟨l', z, hl⟩ : ∃ l' z, head :: l = l' ++ [z] :=
        ⟨_, _, (List.dropLast_append_getLast (List.cons_ne_nil head l)).symm⟩
      obtain ⟨r', m, hr⟩ : ∃ r' m, y :: r = r' ++ [m] :=
        ⟨_, _, (List.dropLast_append_getLast (List.cons_ne_nil y r)).symm⟩
      -- The node before the first and the one before the second visit are the same.
      have hfirst : prev y = z := by
        have hlist : head :: (l ++ y :: r ++ [y]) = l' ++ z :: y :: (r ++ [y]) := by
          calc head :: (l ++ y :: r ++ [y]) = (head :: l) ++ y :: (r ++ [y]) := by simp
            _ = l' ++ z :: y :: (r ++ [y]) := by rw [hl]; simp
        rw [hlist, List.isChain_append_cons_cons] at h
        exact h.2.1
      have hsecond : prev y = m := by
        have hlist : head :: (l ++ y :: r ++ [y]) = (head :: l ++ r') ++ m :: y :: [] := by
          calc head :: (l ++ y :: r ++ [y]) = (head :: l) ++ (y :: r) ++ [y] := by simp
            _ = (head :: l ++ r') ++ m :: y :: [] := by rw [hr]; simp
        rw [hlist, List.isChain_append_cons_cons] at h
        exact h.2.1
      have hz : z ∈ head :: l := by
        rw [hl]
        exact List.mem_concat_self
      have hm : z ∈ y :: r := by
        rw [← hfirst, hsecond, hr]
        exact List.mem_concat_self
      have hsplit : (head :: l ++ y :: r).Nodup := hys
      exact (List.nodup_append.mp hsplit).2.2 z hz z hm rfl
    exact List.nodup_append.mpr ⟨hys, by simp, by
      intro a ha b hb
      rw [List.mem_singleton.mp hb]
      exact fun he => hy (he ▸ ha)⟩

/-- The links lead from the head to a node, and from there for the first time back to the head. -/
def ReturnsFrom (next : α → α) (head x : α) : Prop :=
  ∃ n, next^[n] head = x ∧ next x = head ∧ ∀ k < n, next^[k + 1] head ≠ head

theorem iterate_of_chain (h : (head :: nodes).IsChain fun a b => next a = b) {k : Nat} {y : α}
    (hy : (head :: nodes)[k]? = some y) : next^[k] head = y := by
  induction nodes generalizing head k with
  | nil =>
    obtain ⟨hk, rfl⟩ := List.getElem?_eq_some_iff.mp hy
    obtain rfl : k = 0 := by simpa using hk
    rfl
  | cons z nodes ih =>
    cases k with
    | zero => exact Option.some.inj hy
    | succ k =>
      obtain ⟨hz, hrest⟩ := List.isChain_cons_cons.mp h
      rw [Function.iterate_succ_apply, hz]
      exact ih hrest hy

/-- The links of a ring return from its last node. -/
theorem returnsFrom_iff (h : (head :: nodes).IsChain fun a b => next a = b)
    (hclosed : ∀ y ∈ (head :: nodes).getLast?, next y = head) (hhead : head ∉ nodes) :
    ReturnsFrom next head x ↔ (head :: nodes).getLast? = some x := by
  obtain ⟨last, hlast⟩ : ∃ last, (head :: nodes).getLast? = some last :=
    ⟨_, List.getLast?_eq_some_getLast (List.cons_ne_nil head nodes)⟩
  have hend : next^[nodes.length] head = last := by
    apply iterate_of_chain h
    rw [← hlast, List.getLast?_eq_getElem?]
    rfl
  have hback : next last = head := hclosed last hlast
  have haway : ∀ k < nodes.length, next^[k + 1] head ≠ head := by
    intro k hk he
    have hnode : next^[k + 1] head = nodes[k] :=
      iterate_of_chain h (by rw [List.getElem?_cons_succ, List.getElem?_eq_getElem hk])
    exact hhead (he ▸ hnode ▸ List.getElem_mem hk)
  rw [hlast, Option.some_inj]
  constructor
  · rintro ⟨n, rfl, hx, hfirst⟩
    rw [← hend]
    -- Neither before the last node nor after it do the links return for the first time.
    rcases lt_trichotomy n nodes.length with hlt | rfl | hgt
    · exact absurd ((Function.iterate_succ_apply' next n head).trans hx) (haway n hlt)
    · rfl
    · refine absurd ?_ (hfirst nodes.length hgt)
      rw [Function.iterate_succ_apply', hend, hback]
  · rintro rfl
    exact ⟨nodes.length, hend, hback, haway⟩

end Rtems
