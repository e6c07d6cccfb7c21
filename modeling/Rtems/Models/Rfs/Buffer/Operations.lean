import Rtems.Models.Rfs.Buffer.Consistent

/-!
# The buffer operations keep the chains consistent

Each way a request finds its buffer and each way a release lets one go keeps the invariant.
The only one that needs a condition is a release of a block that other handles still hold:
the mark of the handle must not be the only one.
-/

namespace Rtems.Rfs.Buffer

open Function

variable {m : Mount} {s : State} {i block : Nat} {handle : Handle}

/-- If the handle's mark is set and other handles hold its block, the mark of one of them is
set too. -/
def MarkShared (handles : List Handle) (i : Nat) (handle : Handle) (block : Nat) : Prop :=
  handle.dirty = true → (∃ other ∈ handles.eraseIdx i, other.buffer = some block) →
    ∃ other ∈ handles.eraseIdx i, other.buffer = some block ∧ other.dirty = true

theorem count_concat (chain : List Nat) (block b : Nat) :
    (chain ++ [block]).count b = chain.count b + if b = block then 1 else 0 := by
  by_cases hb : b = block
  · simp [hb]
  · simp [hb, Ne.symm hb]

theorem count_cons_eq (chain : List Nat) (block b : Nat) :
    (block :: chain).count b = chain.count b + if b = block then 1 else 0 := by
  by_cases hb : b = block
  · simp [hb]
  · simp [hb, Ne.symm hb]

variable {handles : List Handle} {handle' : Handle} {b : Nat}

/-- A buffer that was taken off its chain is handed over. -/
theorem onChain_handedOver {events : List Event} {n : Nat} (modified : Bool)
    (h : n + (if b = block then 1 else 0) = if isOut events b then 1 else 0) :
    n = if isOut (.handedOver block modified :: events) b then 1 else 0 := by
  rw [isOut]
  by_cases hb : b = block
  · rw [if_pos hb] at h
    rw [if_pos hb.symm, if_neg Bool.false_ne_true]
    split at h <;> omega
  · rw [if_neg hb] at h
    rw [if_neg (Ne.symm hb)]
    exact h

/-- A block that is marked was not just handed over. -/
theorem isMarked_of_handedOver {events : List Event} {modified : Bool}
    (h : isMarked (.handedOver block modified :: events) b = true) :
    block ≠ b ∧ isMarked events b = true := by
  rw [isMarked] at h
  split at h
  next => cases h
  next hne => exact ⟨hne, h⟩

/-- A handle that changes keeps the marks that other handles carry, and its own if it still
holds its block. -/
theorem carrier_set (hi : handles[i]? = some handle)
    (hkeep : handle.buffer = some b → handle.dirty = true →
      handle'.buffer = some b ∧ handle'.dirty = true)
    (h : ∃ other ∈ handles, other.buffer = some b ∧ other.dirty = true) :
    ∃ other ∈ handles.set i handle', other.buffer = some b ∧ other.dirty = true := by
  obtain ⟨other, hmem, hbuffer, hdirty⟩ := h
  obtain ⟨j, hj⟩ := List.mem_iff_getElem?.mp hmem
  obtain ⟨hlt, -⟩ := List.getElem?_eq_some_iff.mp hi
  by_cases hij : i = j
  · subst hij
    have hsame : handle = other := Option.some.inj (hi.symm.trans hj)
    subst hsame
    exact ⟨handle', List.mem_set hlt handle', hkeep hbuffer hdirty⟩
  · refine ⟨other, List.mem_of_getElem? (i := j) ?_, hbuffer, hdirty⟩
    rwa [List.getElem?_set_ne hij]

/-- A handle that changes knows its block if the new value does. -/
theorem bnum_set
    (hbnum : ∀ handle ∈ handles, ∀ block, handle.buffer = some block → handle.bnum = block)
    (hnew : ∀ block, handle'.buffer = some block → handle'.bnum = block) :
    ∀ handle ∈ handles.set i handle', ∀ block, handle.buffer = some block →
      handle.bnum = block := by
  intro other hmem
  rcases List.mem_or_eq_of_mem_set hmem with hold | rfl
  · exact hbnum other hold
  · exact hnew

section

variable (hs : Consistent m s)
include hs

theorem Consistent.counts_of_references (h : s.references block ≠ 0) :
    s.buffers.count block = 1 ∧ s.release.count block = 0 ∧ s.releaseModified.count block = 0 := by
  have hattached := mt (hs.attached block).mp h
  have hexclusive := hs.exclusive block
  omega

theorem Consistent.references_ne_zero (hmem : handle ∈ s.handles)
    (hbuffer : handle.buffer = some block) : s.references block ≠ 0 := by
  rw [hs.references block, State.holders, ← Nat.pos_iff_ne_zero, List.countP_pos_iff]
  exact ⟨handle, hmem, by simp [Handle.holds, hbuffer]⟩

theorem Consistent.not_marked (h : s.release.count block ≠ 0) :
    isMarked s.events block = false := by
  rw [← Bool.not_eq_true]
  intro hmarked
  rcases hs.carried block hmarked with ⟨handle, hmem, hbuffer, -⟩ | hmodified
  · exact h (hs.counts_of_references (hs.references_ne_zero hmem hbuffer)).2.1
  · have := hs.exclusive block
    omega

/-- The eviction finds a buffer, and keeps the invariant. -/
theorem Consistent.evict (hfull : m.maxHeldBuffers ≤ s.releaseCount + s.releaseModifiedCount) :
    ∃ t, evict s = some t ∧ Consistent m t ∧ t.references = s.references ∧
      t.buffers = s.buffers ∧ t.buffersCount = s.buffersCount ∧ t.handles = s.handles := by
  obtain ⟨hbuffers, hrelease, hmodified⟩ := hs.counts
  have hpos := m.held_pos
  unfold Buffer.evict
  split
  next hlonger =>
    cases hchain : s.release with
    | nil => rw [hchain, List.length_nil] at hrelease; omega
    | cons first rest =>
      have hunmarked : isMarked s.events first = false := hs.not_marked (by rw [hchain]; simp)
      refine ⟨_, rfl, ⟨⟨hbuffers, ?_, hmodified⟩, ?_, hs.references, hs.attached, hs.bnum, ?_, ?_,
        ?_⟩, rfl, rfl, rfl, rfl⟩
      · show s.releaseCount - 1 = rest.length
        rw [hrelease, hchain, List.length_cons, Nat.add_sub_cancel]
      · intro b
        have := hs.onChain b
        rw [hchain, count_cons_eq] at this
        refine onChain_handedOver false (Eq.trans ?_ this)
        show s.buffers.count b + rest.count b + s.releaseModified.count b + _ = _
        omega
      · intro hno
        rw [(hs.uncached hno).1] at hchain
        cases hchain
      · intro b hmarked
        exact hs.carried b (isMarked_of_handedOver hmarked).2
      · refine hs.noneLost.cons fun b modified heq hmarked => ?_
        cases heq
        exact absurd (hunmarked.symm.trans hmarked) (by simp)
  next hshorter =>
    cases hchain : s.releaseModified with
    | nil => rw [hchain, List.length_nil] at hmodified; omega
    | cons first rest =>
      refine ⟨_, rfl, ⟨⟨hbuffers, hrelease, ?_⟩, ?_, hs.references, hs.attached, hs.bnum, ?_, ?_,
        ?_⟩, rfl, rfl, rfl, rfl⟩
      · show s.releaseModifiedCount - 1 = rest.length
        rw [hmodified, hchain, List.length_cons, Nat.add_sub_cancel]
      · intro b
        have := hs.onChain b
        rw [hchain, count_cons_eq] at this
        refine onChain_handedOver true (Eq.trans ?_ this)
        show s.buffers.count b + s.release.count b + rest.count b + _ = _
        omega
      · intro hno
        rw [(hs.uncached hno).2] at hchain
        cases hchain
      · intro b hmarked
        obtain ⟨hb, hold⟩ := isMarked_of_handedOver hmarked
        have hcarried := hs.carried b hold
        rwa [hchain, List.count_cons_of_ne hb] at hcarried
      · refine hs.noneLost.cons fun b modified heq _ => ?_
        cases heq
        rfl

/-- The references after a handle let its block go. -/
theorem Consistent.references_detach (hi : s.handles[i]? = some handle)
    (hbuffer : handle.buffer = some block) (b : Nat) :
    update s.references block (s.references block - 1) b =
      (s.handles.set i { handle with buffer := none }).countP (Handle.holds b) := by
  rw [holders_set hi]
  have hreferences : s.references b = s.handles.countP (Handle.holds b) := hs.references b
  by_cases hb : b = block
  · subst hb
    simp [Handle.holds, hbuffer, hreferences]
  · simp [Handle.holds, hbuffer, hreferences, hb, Ne.symm hb]

end

theorem bnum_detached (handle : Handle) :
    ∀ block, ({ handle with buffer := none } : Handle).buffer = some block →
      ({ handle with buffer := none } : Handle).bnum = block := by
  intro block h
  cases h

section

variable (hs : Consistent m s)
include hs

section

variable (hi : s.handles[i]? = some handle) (hbuffer : handle.buffer = some block)
include hi hbuffer

theorem Consistent.carried_detach (hb : b ≠ block) (hmarked : isMarked s.events b = true) :
    (∃ other ∈ s.handles.set i { handle with buffer := none },
      other.buffer = some b ∧ other.dirty = true) ∨ s.releaseModified.count b ≠ 0 := by
  refine (hs.carried b hmarked).imp_left fun h => carrier_set hi ?_ h
  intro h
  exact absurd (Option.some.inj (h.symm.trans hbuffer)) hb

/-- A block with more than one reference is held by another handle. -/
theorem Consistent.exists_other (hshared : s.references block - 1 ≠ 0) :
    ∃ other ∈ s.handles.eraseIdx i, other.buffer = some block := by
  have hcount := hs.references_detach hi hbuffer block
  rw [update_self] at hcount
  rw [hcount, ← Nat.pos_iff_ne_zero, List.countP_pos_iff] at hshared
  obtain ⟨other, hmem, hholds⟩ := hshared
  have hholds : other.buffer = some block := by simpa [Handle.holds] using hholds
  obtain ⟨j, hj⟩ := List.mem_iff_getElem?.mp hmem
  rw [List.getElem?_set] at hj
  by_cases hij : i = j
  · rw [if_pos hij] at hj
    split at hj
    next =>
      rw [← Option.some.inj hj] at hholds
      cases hholds
    next => cases hj
  · rw [if_neg hij] at hj
    exact ⟨other, List.mem_eraseIdx_iff_getElem?.mpr ⟨j, Ne.symm hij, hj⟩, hholds⟩

/-- A handle lets a block go that other handles hold. -/
theorem Consistent.release_shared (hshared : s.references block - 1 ≠ 0)
    (hmark : MarkShared s.handles i handle block) :
    Consistent m { s with
      references := update s.references block (s.references block - 1)
      handles := s.handles.set i { handle with buffer := none } } := by
  have hpos : s.references block ≠ 0 := by omega
  obtain ⟨hone, hrelease, hmodified⟩ := hs.counts_of_references hpos
  refine ⟨hs.counts, hs.onChain, hs.references_detach hi hbuffer, ?_,
    bnum_set hs.bnum (bnum_detached handle), hs.uncached, ?_, hs.noneLost⟩
  · intro b
    by_cases hb : b = block
    · subst hb
      simp only [update_self]
      omega
    · simp only [update_of_ne hb]
      exact hs.attached b
  · intro b hmarked
    by_cases hb : b = block
    · subst hb
      obtain ⟨j, other, hne, hj, hholds, hdirty⟩ : ∃ j other, j ≠ i ∧
          s.handles[j]? = some other ∧ other.buffer = some b ∧ other.dirty = true := by
        rcases hs.carried b hmarked with ⟨other, hmem, hholds, hdirty⟩ | hcount
        · obtain ⟨j, hj⟩ := List.mem_iff_getElem?.mp hmem
          by_cases hij : j = i
          · subst hij
            have hsame : other = handle := Option.some.inj (hj.symm.trans hi)
            obtain ⟨other', hmem', hholds', hdirty'⟩ :=
              hmark (hsame ▸ hdirty) (hs.exists_other hi hbuffer hshared)
            obtain ⟨k, hk, hget⟩ := List.mem_eraseIdx_iff_getElem?.mp hmem'
            exact ⟨k, other', hk, hget, hholds', hdirty'⟩
          · exact ⟨j, other, hij, hj, hholds, hdirty⟩
        · exact absurd hmodified hcount
      refine Or.inl ⟨other, List.mem_of_getElem? (i := j) ?_, hholds, hdirty⟩
      rwa [List.getElem?_set_ne (Ne.symm hne)]
    · exact hs.carried_detach hi hbuffer hb hmarked

/-- The last handle of a marked block is marked. -/
theorem Consistent.dirty_of_last (hlast : s.references block - 1 = 0)
    (hmarked : isMarked s.events block = true) : handle.dirty = true := by
  have hpos := hs.references_ne_zero (List.mem_of_getElem? hi) hbuffer
  rcases hs.carried block hmarked with ⟨other, hmem, hholds, hdirty⟩ | hcount
  · obtain ⟨j, hj⟩ := List.mem_iff_getElem?.mp hmem
    by_cases hij : i = j
    · subst hij
      exact Option.some.inj (hi.symm.trans hj) ▸ hdirty
    · have hnone := hs.references_detach hi hbuffer block
      rw [update_self, hlast, eq_comm, List.countP_eq_zero] at hnone
      refine absurd ?_ (hnone other (List.mem_of_getElem? (i := j) ?_))
      · simp [Handle.holds, hholds]
      · rwa [List.getElem?_set_ne hij]
  · exact absurd (hs.counts_of_references hpos).2.2 hcount

end

/-- The buffer chain without a block that its last handle let go. -/
theorem Consistent.attached_detach (hone : s.buffers.count block = 1)
    (hlast : s.references block - 1 = 0) (b : Nat) :
    (s.buffers.erase block).count b = 0 ↔
      update s.references block (s.references block - 1) b = 0 := by
  by_cases hb : b = block
  · subst hb
    rw [List.count_erase_self, update_self, hone, hlast]
  · rw [List.count_erase_of_ne hb, update_of_ne hb]
    exact hs.attached b

/-- A block that its last handle let go is on no chain. -/
theorem Consistent.onChain_detach (hpos : s.references block ≠ 0) (b : Nat) :
    (s.buffers.erase block).count b + s.release.count b + s.releaseModified.count b +
      (if b = block then 1 else 0) = if isOut s.events b then 1 else 0 := by
  have honChain := hs.onChain b
  by_cases hb : b = block
  · subst hb
    obtain ⟨hone, -, -⟩ := hs.counts_of_references hpos
    rw [List.count_erase_self, if_pos rfl]
    omega
  · rw [List.count_erase_of_ne hb, if_neg hb]
    exact honChain

section

variable (hi : s.handles[i]? = some handle) (hbuffer : handle.buffer = some block)
  (hlast : s.references block - 1 = 0)
include hi hbuffer hlast

/-- The last handle lets a block go, which is kept in the local cache as the handle's mark
says. -/
theorem Consistent.release_last (hcache : m.noLocalCache = false) :
    (handle.dirty = true → Consistent m { s with
      references := update s.references block (s.references block - 1)
      buffers := s.buffers.erase block
      buffersCount := s.buffersCount - 1
      releaseModified := s.releaseModified ++ [block]
      releaseModifiedCount := s.releaseModifiedCount + 1
      handles := s.handles.set i { handle with buffer := none } }) ∧
    (handle.dirty = false → Consistent m { s with
      references := update s.references block (s.references block - 1)
      buffers := s.buffers.erase block
      buffersCount := s.buffersCount - 1
      release := s.release ++ [block]
      releaseCount := s.releaseCount + 1
      handles := s.handles.set i { handle with buffer := none } }) := by
  have hpos := hs.references_ne_zero (List.mem_of_getElem? hi) hbuffer
  obtain ⟨hone, hrelease, hmodified⟩ := hs.counts_of_references hpos
  have hmem : block ∈ s.buffers := List.count_pos_iff.mp (by omega)
  obtain ⟨hcountB, hcountR, hcountM⟩ := hs.counts
  have hlength : s.buffersCount - 1 = (s.buffers.erase block).length := by
    rw [List.length_erase_of_mem hmem, hcountB]
  have honChain := hs.onChain_detach hpos
  constructor
  · intro hdirty
    refine ⟨⟨hlength, hcountR, by simp [hcountM]⟩, ?_, hs.references_detach hi hbuffer,
      hs.attached_detach hone hlast, bnum_set hs.bnum (bnum_detached handle), ?_, ?_, hs.noneLost⟩
    · intro b
      have := honChain b
      show (s.buffers.erase block).count b + s.release.count b +
        (s.releaseModified ++ [block]).count b = if isOut s.events b then 1 else 0
      rw [count_concat]
      omega
    · intro hno
      rw [hcache] at hno
      cases hno
    · intro b hmarked
      rw [count_concat]
      by_cases hb : b = block
      · exact Or.inr (by simp [hb])
      · rw [if_neg hb, Nat.add_zero]
        exact hs.carried_detach hi hbuffer hb hmarked
  · intro hclean
    refine ⟨⟨hlength, by simp [hcountR], hcountM⟩, ?_, hs.references_detach hi hbuffer,
      hs.attached_detach hone hlast, bnum_set hs.bnum (bnum_detached handle), ?_, ?_, hs.noneLost⟩
    · intro b
      have := honChain b
      show (s.buffers.erase block).count b + (s.release ++ [block]).count b +
        s.releaseModified.count b = if isOut s.events b then 1 else 0
      rw [count_concat]
      omega
    · intro hno
      rw [hcache] at hno
      cases hno
    · intro b hmarked
      have hb : b ≠ block := by
        rintro rfl
        have := hs.dirty_of_last hi hbuffer hlast hmarked
        exact absurd (hclean.symm.trans this) (by simp)
      exact hs.carried_detach hi hbuffer hb hmarked

/-- Without a local cache, the last handle hands its block over as its mark says. -/
theorem Consistent.release_uncached :
    Consistent m { s with
      references := update s.references block (s.references block - 1)
      buffers := s.buffers.erase block
      buffersCount := s.buffersCount - 1
      events := .handedOver block handle.dirty :: s.events
      handles := s.handles.set i { handle with buffer := none } } := by
  have hpos := hs.references_ne_zero (List.mem_of_getElem? hi) hbuffer
  obtain ⟨hone, hrelease, hmodified⟩ := hs.counts_of_references hpos
  have hmem : block ∈ s.buffers := List.count_pos_iff.mp (by omega)
  obtain ⟨hcountB, hcountR, hcountM⟩ := hs.counts
  refine ⟨⟨by rw [List.length_erase_of_mem hmem, hcountB], hcountR, hcountM⟩, ?_,
    hs.references_detach hi hbuffer, hs.attached_detach hone hlast,
    bnum_set hs.bnum (bnum_detached handle), hs.uncached, ?_, ?_⟩
  · intro b
    exact onChain_handedOver handle.dirty (hs.onChain_detach hpos b)
  · intro b hmarked
    obtain ⟨hb, hold⟩ := isMarked_of_handedOver hmarked
    exact hs.carried_detach hi hbuffer (Ne.symm hb) hold
  · refine hs.noneLost.cons fun b modified heq hmarked => ?_
    cases heq
    exact hs.dirty_of_last hi hbuffer hlast hmarked

end

end

/-- An eviction does not look at the attached buffers. -/
theorem evict_attached (s : State) (references : Nat → Nat) (buffers : List Nat) (count : Nat) :
    evict { s with
      references := references
      buffers := buffers
      buffersCount := count } =
    (evict s).map fun t => { t with
      references := references
      buffers := buffers
      buffersCount := count } := by
  unfold evict
  by_cases hlonger : s.releaseCount > s.releaseModifiedCount
  · simp only [if_pos hlonger]
    cases s.release <;> rfl
  · simp only [if_neg hlonger]
    cases s.releaseModified <;> rfl

/-- A handle releases its block: the call returns, and the invariant is kept if the mark of
the handle is not the only one of a block that others still hold. The handle has no buffer
then and is otherwise as before. -/
theorem Consistent.handleRelease (hs : Consistent m s) (hi : s.handles[i]? = some handle)
    (hmark : ∀ block, handle.buffer = some block → MarkShared s.handles i handle block)
    (ioOk : Bool) :
    ∃ t ok, handleRelease m s i handle ioOk = some (t, ok) ∧ Consistent m t ∧
      t.handles = s.handles.set i { handle with buffer := none } := by
  obtain ⟨hlt, hget⟩ := List.getElem?_eq_some_iff.mp hi
  cases hbuffer : handle.buffer with
  | none =>
    have hsame : { handle with buffer := none } = handle := by rw [← hbuffer]
    refine ⟨s, true, by simp only [Buffer.handleRelease, hbuffer], hs, ?_⟩
    rw [hsame, ← hget, List.set_getElem_self]
  | some block =>
    simp only [Buffer.handleRelease, hbuffer, update_self]
    by_cases hlast : s.references block - 1 = 0
    · rw [if_pos hlast]
      simp only [letGo]
      by_cases hcache : m.noLocalCache = true
      · rw [if_pos hcache]
        exact ⟨_, _, rfl, hs.release_uncached hi hbuffer hlast, rfl⟩
      · rw [if_neg hcache]
        rw [Bool.not_eq_true] at hcache
        -- The eviction comes first in the argument, so that the invariant holds before
        -- and after it.
        by_cases hfull : m.maxHeldBuffers ≤ s.releaseCount + s.releaseModifiedCount
        · obtain ⟨r, hr, hrs, hreferences, hbuffers, hcount, hhandles⟩ := hs.evict hfull
          rw [if_pos hfull, evict_attached, hr]
          have hri : r.handles[i]? = some handle := by rw [hhandles]; exact hi
          have hrlast : r.references block - 1 = 0 := by rw [hreferences]; exact hlast
          obtain ⟨hmodified, hclean⟩ := hrs.release_last hri hbuffer hrlast hcache
          rw [hreferences, hbuffers, hcount] at hmodified hclean
          rw [← hhandles]
          rcases Bool.eq_false_or_eq_true handle.dirty with hdirty | hdirty
          · refine ⟨_, ioOk, ?_, hmodified hdirty, rfl⟩
            simp only [Option.map_some, hdirty, if_true]
          · refine ⟨_, ioOk, ?_, hclean hdirty, rfl⟩
            simp only [Option.map_some, hdirty, Bool.false_eq_true, if_false]
        · rw [if_neg hfull]
          obtain ⟨hmodified, hclean⟩ := hs.release_last hi hbuffer hlast hcache
          rcases Bool.eq_false_or_eq_true handle.dirty with hdirty | hdirty
          · refine ⟨_, true, ?_, hmodified hdirty, rfl⟩
            simp only [Option.map_some, hdirty, if_true]
          · refine ⟨_, true, ?_, hclean hdirty, rfl⟩
            simp only [Option.map_some, hdirty, Bool.false_eq_true, if_false]
    · rw [if_neg hlast]
      exact ⟨_, _, rfl, hs.release_shared hi hbuffer hlast (hmark block hbuffer), rfl⟩

end Rtems.Rfs.Buffer
