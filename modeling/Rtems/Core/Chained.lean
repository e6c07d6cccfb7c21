import Mathlib.Data.List.Chain

/-!
# Chains in a table of links

A table gives the successor of each element; a chain is a list of elements in which each one
is linked to the next and the last one to a mark for the end.
-/

namespace Rtems

variable {α : Type*} {next next' : α → α} {isEnd : α → Prop} {cs cs' : List α} {c : α}

/-- A list of elements is a chain of the table. -/
structure Chained (next : α → α) (isEnd : α → Prop) (cs : List α) : Prop where
  /-- Each element is linked to the one behind it. -/
  links : cs.IsChain (fun c c' => next c = c')
  /-- The last element is linked to an end mark. -/
  ends : ∀ c ∈ cs.getLast?, isEnd (next c)

/-- The empty chain. -/
theorem Chained.nil : Chained next isEnd [] :=
  ⟨.nil, fun _ h => nomatch h⟩

/-- Only the links of the elements matter. -/
theorem Chained.congr (h : Chained next isEnd cs) (hnext : ∀ c ∈ cs, next' c = next c) :
    Chained next' isEnd cs := by
  constructor
  · apply h.links.imp_of_mem_imp
    intro a b ha _ hab
    rw [hnext a ha, hab]
  · intro c hc
    rw [hnext c (List.mem_of_getLast? hc)]
    exact h.ends c hc

/-- The rest of a chain behind some elements. -/
theorem Chained.drop (h : Chained next isEnd cs) (k : Nat) :
    Chained next isEnd (cs.drop k) := by
  refine ⟨h.links.drop k, fun c hc => h.ends c ?_⟩
  rw [List.getLast?_drop] at hc
  by_cases hk : cs.length ≤ k
  · simp [hk] at hc
  · simpa [hk] using hc

/-- The links of a chain. -/
theorem Chained.next_eq {c' : α} (h : Chained next isEnd cs) {i : Nat}
    (hc : cs[i]? = some c) (hc' : cs[i + 1]? = some c') : next c = c' := by
  obtain ⟨hi, rfl⟩ := List.getElem?_eq_some_iff.mp hc
  obtain ⟨hi', rfl⟩ := List.getElem?_eq_some_iff.mp hc'
  exact List.isChain_iff_getElem.mp h.links i hi'

/-- The link of the last element does not matter for the links between the elements. -/
theorem isChain_concat_congr (h : (cs ++ [c]).IsChain (fun c c' => next c = c'))
    (hsame : ∀ d ∈ cs, next' d = next d) : (cs ++ [c]).IsChain (fun c c' => next' c = c') := by
  obtain ⟨hcs, -, hlink⟩ := List.isChain_append.mp h
  apply List.IsChain.append (hcs.imp_of_mem_imp ?_) (.singleton c)
  · intro a ha b hb
    rw [hsame a (List.mem_of_getLast? ha)]
    exact hlink a ha b hb
  · intro a b ha _ hab
    rw [hsame a ha, hab]

/-- Two chains are one chain if the last element of the first is linked to the second. -/
theorem Chained.append {c' : α} (h : (cs ++ [c]).IsChain (fun c c' => next c = c'))
    (h' : Chained next isEnd (c' :: cs')) (hlink : next c = c') :
    Chained next isEnd (cs ++ [c] ++ c' :: cs') := by
  constructor
  · apply h.append h'.links
    intro a ha b hb
    simp only [List.getLast?_concat, Option.mem_some_iff] at ha
    simp only [List.head?_cons, Option.mem_some_iff] at hb
    rw [← ha, ← hb, hlink]
  · intro d hd
    apply h'.ends
    rwa [List.getLast?_append_of_ne_nil _ (List.cons_ne_nil _ _)] at hd

end Rtems
