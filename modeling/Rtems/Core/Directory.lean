import Mathlib.Data.List.Nodup

/-!
# Chains of the non-empty buckets

A family of buckets comes with a chain of the indices whose bucket is not empty. An
index is linked when its bucket gets its first element and unlinked when the bucket
loses its last one. Linking an index twice and unlinking an index that is not on the
chain destroy a linked chain, so both are undefined here.
-/

namespace Rtems

variable {σ α : Type*}

/-- Append an index that is not on the chain. -/
def link [DecidableEq σ] (chain : List σ) (i : σ) : Option (List σ) :=
  if i ∈ chain then none else some (chain ++ [i])

/-- Take an index off the chain. -/
def unlink [DecidableEq σ] (chain : List σ) (i : σ) : Option (List σ) :=
  if i ∈ chain then some (chain.erase i) else none

/-- The chain holds exactly the indices of the non-empty buckets, each once. -/
structure Indexes (chain : List σ) (bucket : σ → List α) : Prop where
  nodup : chain.Nodup
  mem_iff : ∀ i, i ∈ chain ↔ bucket i ≠ []

namespace Indexes

variable {chain : List σ} {bucket bucket' : σ → List α} {i : σ}

/-- Only which buckets are empty matters. -/
theorem congr (h : Indexes chain bucket) (hb : ∀ i, bucket' i = [] ↔ bucket i = []) :
    Indexes chain bucket' :=
  ⟨h.nodup, fun i => (h.mem_iff i).trans (not_congr (hb i)).symm⟩

/-- The first element of a bucket. -/
theorem link [DecidableEq σ] (h : Indexes chain bucket) (hempty : bucket i = [])
    (bucket' : σ → List α)
    (hi : bucket' i ≠ []) (hne : ∀ j, j ≠ i → bucket' j = bucket j) :
    Rtems.link chain i = some (chain ++ [i]) ∧ Indexes (chain ++ [i]) bucket' := by
  have hnot : i ∉ chain := fun hmem => (h.mem_iff i).mp hmem hempty
  refine ⟨if_neg hnot, ?_, ?_⟩
  · exact List.nodup_append.mpr ⟨h.nodup, List.nodup_singleton i, by
      rintro a ha b hb rfl
      exact hnot (List.mem_singleton.mp hb ▸ ha)⟩
  · intro j
    rw [List.mem_append, List.mem_singleton]
    by_cases hj : j = i
    · simp [hj, hi]
    · rw [hne j hj, h.mem_iff j]
      simp [hj]

/-- The last element of a bucket is gone. -/
theorem unlink [DecidableEq σ] (h : Indexes chain bucket) (hfull : bucket i ≠ [])
    (bucket' : σ → List α)
    (hi : bucket' i = []) (hne : ∀ j, j ≠ i → bucket' j = bucket j) :
    Rtems.unlink chain i = some (chain.erase i) ∧ Indexes (chain.erase i) bucket' := by
  have hmem : i ∈ chain := (h.mem_iff i).mpr hfull
  refine ⟨if_pos hmem, h.nodup.erase i, fun j => ?_⟩
  rw [h.nodup.mem_erase_iff]
  by_cases hj : j = i
  · simp [hj, hi]
  · rw [hne j hj, h.mem_iff j]
    simp [hj]

/-- Moving the first index to the end. -/
theorem rotate {rest : List σ} (h : Indexes (i :: rest) bucket) :
    Indexes (rest ++ [i]) bucket := by
  have hperm : (rest ++ [i]).Perm (i :: rest) := List.perm_append_singleton i rest
  exact ⟨hperm.nodup_iff.mpr h.nodup, fun j => hperm.mem_iff.trans (h.mem_iff j)⟩

end Indexes

end Rtems
