import Rtems.Models.Rfs.Buffer.Operations

/-!
# Requests, marks and the release of the local cache

A request takes its buffer from the chain it is on, or gets one from the I/O layer if it is
on none, and keeps the mark of the block in either case.
-/

namespace Rtems.Rfs.Buffer

open Function

variable {m : Mount} {s : State} {i block : Nat} {handle : Handle}

/-- A state in which a block was taken off its chain, or was on none. -/
structure Taken (m : Mount) (s r : State) (block : Nat) : Prop where
  /-- The handles and the references are the same. -/
  same : r.references = s.references ∧ r.handles = s.handles
  /-- So are the marks. -/
  marks : ∀ b, isMarked r.events b = isMarked s.events b
  /-- No mark is lost. -/
  noneLost : NoneLost r.events
  /-- The counters are the lengths of the chains. -/
  counts : r.buffersCount = r.buffers.length ∧ r.releaseCount = r.release.length ∧
    r.releaseModifiedCount = r.releaseModified.length
  /-- The block was obtained and is on no chain. -/
  free : ∀ b, r.buffers.count b + r.release.count b + r.releaseModified.count b +
    (if b = block then 1 else 0) = if isOut r.events b then 1 else 0
  /-- Other blocks are where they were. -/
  others : ∀ b, b ≠ block → r.buffers.count b = s.buffers.count b ∧
    r.releaseModified.count b = s.releaseModified.count b
  /-- Without a local cache nothing is kept. -/
  uncached : m.noLocalCache = true → r.release = [] ∧ r.releaseModified = []

section

variable (hs : Consistent m s)
include hs

/-- The references after a handle got a block. -/
theorem Consistent.references_attach (hi : s.handles[i]? = some handle)
    (hbuffer : handle.buffer = none) (dirty : Bool) (b : Nat) :
    update s.references block (s.references block + 1) b =
      (s.handles.set i ⟨dirty, block, some block⟩).countP (Handle.holds b) := by
  rw [holders_set hi]
  have hreferences : s.references b = s.handles.countP (Handle.holds b) := hs.references b
  by_cases hb : b = block
  · subst hb
    simp [Handle.holds, hbuffer, hreferences]
  · simp [Handle.holds, hbuffer, hreferences, hb, Ne.symm hb]

/-- A handle without a buffer gets a block; its mark is set, or another holder's, if the
block is marked. -/
theorem Consistent.attach {r : State} (hr : Taken m s r block)
    (hi : s.handles[i]? = some handle) (hbuffer : handle.buffer = none) {dirty : Bool}
    (hmark : isMarked s.events block = true → dirty = true ∨
      ∃ other ∈ s.handles, other.buffer = some block ∧ other.dirty = true) :
    Consistent m (attach r i block dirty) := by
  obtain ⟨hlt, -⟩ := List.getElem?_eq_some_iff.mp hi
  obtain ⟨hreferences, hhandles⟩ := hr.same
  obtain ⟨hcountB, hcountR, hcountM⟩ := hr.counts
  have hkeep : ∀ b, handle.buffer = some b → handle.dirty = true →
      (⟨dirty, block, some block⟩ : Handle).buffer = some b ∧ dirty = true := by
    intro b h
    rw [hbuffer] at h
    cases h
  unfold Buffer.attach
  rw [hreferences, hhandles]
  refine ⟨⟨by simp [hcountB], hcountR, hcountM⟩, ?_, hs.references_attach hi hbuffer dirty, ?_,
    bnum_set hs.bnum ?_, hr.uncached, ?_, hr.noneLost⟩
  · intro b
    have := hr.free b
    show (r.buffers ++ [block]).count b + r.release.count b + r.releaseModified.count b =
      if isOut r.events b then 1 else 0
    rw [count_concat]
    omega
  · intro b
    show (r.buffers ++ [block]).count b = 0 ↔
      update s.references block (s.references block + 1) b = 0
    rw [count_concat]
    by_cases hb : b = block
    · subst hb
      simp
    · rw [if_neg hb, Nat.add_zero, update_of_ne hb, (hr.others b hb).1]
      exact hs.attached b
  · intro b h
    exact Option.some.inj h
  · intro b hb
    have hold : isMarked s.events b = true := by rw [← hr.marks b]; exact hb
    by_cases hblock : b = block
    · subst hblock
      rcases hmark hold with hdirty | hother
      · exact Or.inl ⟨_, List.mem_set hlt _, rfl, hdirty⟩
      · exact Or.inl (carrier_set hi (hkeep b) hother)
    · show _ ∨ r.releaseModified.count b ≠ 0
      rw [(hr.others b hblock).2]
      exact (hs.carried b hold).imp_left (carrier_set hi (hkeep b))

/-- What a search of the chains finds is taken off its chain, and the mark of the block is
kept. -/
theorem Consistent.locate_some {r : State} {dirty dirty' : Bool}
    (h : locate m s block dirty = some (r, dirty')) :
    Taken m s r block ∧ (isMarked s.events block = true → dirty' = true ∨
      ∃ other ∈ s.handles, other.buffer = some block ∧ other.dirty = true) := by
  obtain ⟨hcountB, hcountR, hcountM⟩ := hs.counts
  unfold locate at h
  split at h
  next rest hscan =>
    cases h
    obtain ⟨hlength, hcount⟩ := scanChain_some (scanChain_of_guarded hscan)
    refine ⟨⟨⟨rfl, rfl⟩, fun _ => rfl, hs.noneLost, ⟨by simp [hcountB, hlength], hcountR, hcountM⟩,
      ?_, ?_, hs.uncached⟩, ?_⟩
    · intro b
      refine Eq.trans ?_ (hs.onChain b)
      rw [hcount b]
      show rest.count b + s.release.count b + s.releaseModified.count b + _ = _
      omega
    · intro b hb
      exact ⟨by rw [hcount b, if_neg hb, Nat.add_zero], rfl⟩
    · intro hmarked
      rcases hs.carried block hmarked with hholder | hmodified
      · exact Or.inr hholder
      · have := hs.exclusive block
        rw [hcount block, if_pos rfl] at this
        omega
  next =>
    split at h
    next => cases h
    next hcache =>
      split at h
      next rest hscan =>
        cases h
        obtain ⟨hlength, hcount⟩ := scanChain_some (scanChain_of_guarded hscan)
        refine ⟨⟨⟨rfl, rfl⟩, fun _ => rfl, hs.noneLost,
          ⟨hcountB, by simp [hcountR, hlength], hcountM⟩, ?_, fun _ _ => ⟨rfl, rfl⟩,
          fun hno => absurd hno hcache⟩, ?_⟩
        · intro b
          refine Eq.trans ?_ (hs.onChain b)
          rw [hcount b]
          show s.buffers.count b + rest.count b + s.releaseModified.count b + _ = _
          omega
        · intro hmarked
          have hkept : s.release.count block ≠ 0 := by
            rw [hcount block, if_pos rfl]
            exact Nat.succ_ne_zero _
          exact absurd ((hs.not_marked hkept).symm.trans hmarked) (by simp)
      next =>
        split at h
        next rest hscan =>
          cases h
          obtain ⟨hlength, hcount⟩ := scanChain_some (scanChain_of_guarded hscan)
          refine ⟨⟨⟨rfl, rfl⟩, fun _ => rfl, hs.noneLost,
            ⟨hcountB, hcountR, by simp [hcountM, hlength]⟩, ?_, ?_,
            fun hno => absurd hno hcache⟩, fun _ => Or.inl rfl⟩
          · intro b
            refine Eq.trans ?_ (hs.onChain b)
            rw [hcount b]
            show s.buffers.count b + s.release.count b + rest.count b + _ = _
            omega
          · intro b hb
            exact ⟨rfl, by rw [hcount b, if_neg hb, Nat.add_zero]⟩
        next => cases h

/-- A block that no search finds is on no chain and not marked, and is obtained anew. -/
theorem Consistent.locate_none {dirty : Bool}
    (h : locate m s block dirty = none) :
    Taken m s (ioRequest s block) block ∧ isMarked s.events block = false := by
  obtain ⟨hcountB, hcountR, hcountM⟩ := hs.counts
  obtain ⟨hbuffers, hrelease, hmodified⟩ : s.buffers.count block = 0 ∧
      s.release.count block = 0 ∧ s.releaseModified.count block = 0 := by
    unfold locate at h
    split at h
    next => cases h
    next hscanB =>
      refine ⟨scanChain_none hcountB hscanB, ?_⟩
      split at h
      next hno => simp [hs.uncached hno]
      next =>
        split at h
        next => cases h
        next hscanR =>
          split at h
          next => cases h
          next hscanM => exact ⟨scanChain_none hcountR hscanR, scanChain_none hcountM hscanM⟩
  refine ⟨⟨⟨rfl, rfl⟩, fun _ => rfl, hs.noneLost.cons fun _ _ heq => absurd heq (by simp),
    hs.counts, ?_, fun _ _ => ⟨rfl, rfl⟩, hs.uncached⟩, ?_⟩
  · intro b
    show s.buffers.count b + s.release.count b + s.releaseModified.count b + _ =
      if (if block = b then true else isOut s.events b) then 1 else 0
    by_cases hb : b = block
    · subst hb
      simp [hbuffers, hrelease, hmodified]
    · rw [if_neg hb, if_neg (Ne.symm hb)]
      exact hs.onChain b
  · rw [← Bool.not_eq_true]
    intro hmarked
    rcases hs.carried block hmarked with ⟨other, hmem, hholds, -⟩ | hcount
    · exact hs.references_ne_zero hmem hholds ((hs.attached block).mp hbuffers)
    · exact hcount hmodified

end

section

variable (hs : Consistent m s) (hi : s.handles[i]? = some handle)
include hs hi

/-- A request by a handle without a buffer. -/
theorem Consistent.requestFree (hbuffer : handle.buffer = none) (requestOk : Bool) :
    Consistent m (requestFree m s i handle block requestOk).1 := by
  unfold Buffer.requestFree
  split
  next r dirty hfound =>
    obtain ⟨htaken, hmark⟩ := hs.locate_some hfound
    exact hs.attach htaken hi hbuffer hmark
  next hnone =>
    obtain ⟨htaken, hunmarked⟩ := hs.locate_none hnone
    split
    next =>
      refine hs.attach htaken hi hbuffer fun hmarked => ?_
      exact absurd (hunmarked.symm.trans hmarked) (by simp)
    next => exact hs

/-- A handle without a block changes without effect on the chains. -/
theorem Consistent.set_closed (hbuffer : handle.buffer = none) :
    Consistent m { s with handles := s.handles.set i .closed } := by
  have hholds : ∀ b, handle.holds b = false := by simp [Handle.holds, hbuffer]
  have hclosed : ∀ b, Handle.closed.holds b = false := by simp [Handle.holds, Handle.closed]
  refine { hs with references := ?_, bnum := bnum_set hs.bnum ?_, carried := ?_ }
  · intro b
    rw [State.holders, holders_set hi, hholds, hclosed]
    exact hs.references b
  · intro b h
    cases h
  · intro b hmarked
    refine (hs.carried b hmarked).imp_left (carrier_set hi fun h => ?_)
    rw [hbuffer] at h
    cases h

/-- A handle requests a block: the call returns, and the invariant is kept if the mark of the
handle is not the only one of a block that it lets go and others still hold. -/
theorem Consistent.handleRequest
    (hmark : ∀ held, handle.buffer = some held → ¬ (block ≠ 0 ∧ handle.bnum = block) →
      MarkShared s.handles i handle held) (releaseOk requestOk : Bool) :
    ∃ t ok, handleRequest m s i handle block releaseOk requestOk = some (t, ok) ∧
      Consistent m t := by
  obtain ⟨hlt, -⟩ := List.getElem?_eq_some_iff.mp hi
  unfold Buffer.handleRequest
  split
  next held hbuffer =>
    split
    next => exact ⟨s, true, rfl, hs⟩
    next hother =>
      obtain ⟨t, ok, hrelease, ht, hhandles⟩ :=
        hs.handleRelease hi (fun held hheld => hmark held hheld hother) releaseOk
      rw [hrelease]
      have hti : t.handles[i]? = some { handle with buffer := none } := by
        rw [hhandles, List.getElem?_set_self hlt]
      have hclosed : (t.handles.set i .closed)[i]? = some .closed := by
        rw [List.getElem?_set_self (by rw [hhandles, List.length_set]; exact hlt)]
      cases ok with
      | true =>
        exact ⟨_, _, rfl, (ht.set_closed hti rfl).requestFree hclosed rfl requestOk⟩
      | false => exact ⟨t, false, rfl, ht⟩
  next hbuffer => exact ⟨_, _, rfl, hs.requestFree hi hbuffer requestOk⟩

/-- A handle is marked dirty, and the mark of its block is recorded. -/
theorem Consistent.markDirty : Consistent m { markDirty s i handle with
    events := handle.buffer.toList.map .marked ++ s.events } := by
  obtain ⟨hlt, -⟩ := List.getElem?_eq_some_iff.mp hi
  have hpos : ∀ b, handle.holds b = true → 1 ≤ s.handles.countP (Handle.holds b) := by
    intro b h
    exact holders_pos hi (by simpa [Handle.holds] using h)
  have hkeep : ∀ b, handle.buffer = some b → handle.dirty = true →
      ({ handle with dirty := true } : Handle).buffer = some b ∧
        ({ handle with dirty := true } : Handle).dirty = true := fun b h _ => ⟨h, rfl⟩
  refine { hs with
    onChain := ?_, references := ?_, bnum := bnum_set hs.bnum ?_, carried := ?_, noneLost := ?_ }
  · cases handle.buffer with
    | none => exact hs.onChain
    | some held => exact hs.onChain
  · intro b
    have hsame : ({ handle with dirty := true } : Handle).holds b = handle.holds b := rfl
    show s.references b = (s.handles.set i { handle with dirty := true }).countP (Handle.holds b)
    rw [holders_set hi, hsame, hs.references b]
    have := hpos b
    show s.handles.countP (Handle.holds b) = _
    cases hholds : handle.holds b with
    | true => exact (Nat.sub_add_cancel (this hholds)).symm
    | false => rfl
  · exact fun b h => hs.bnum handle (List.mem_of_getElem? hi) b h
  · intro b hmarked
    by_cases hb : handle.buffer = some b
    · exact Or.inl ⟨_, List.mem_set hlt _, hb, rfl⟩
    · have hold : isMarked s.events b = true := by
        cases hheld : handle.buffer with
        | none => simpa [hheld] using hmarked
        | some held =>
          have hne : held ≠ b := fun h => hb (h ▸ hheld)
          simpa [hheld, isMarked, hne] using hmarked
      exact (hs.carried b hold).imp_left (carrier_set hi (hkeep b))
  · cases handle.buffer with
    | none => exact hs.noneLost
    | some held => exact hs.noneLost.cons fun _ _ heq => absurd heq (by simp)

end

/-- What handing over a chain changes, and what it does not. -/
theorem releaseChain_spec (s : State) (modified : Bool) (chain : List Nat) :
    ∃ events, releaseChain s modified chain = { s with events } ∧
      (∀ b, isMarked events b = true → isMarked s.events b = true ∧ chain.count b = 0) ∧
      (∀ b n, n + chain.count b = (if isOut s.events b then 1 else 0) →
        n = if isOut events b then 1 else 0) ∧
      (NoneLost s.events → (∀ b ∈ chain, isMarked s.events b = true → modified = true) →
        NoneLost events) := by
  induction chain generalizing s with
  | nil => exact ⟨s.events, rfl, fun b h => ⟨h, rfl⟩, fun b n h => h, fun h _ => h⟩
  | cons first rest ih =>
    obtain ⟨events, heq, hmarked, hout, hlost⟩ := ih (ioRelease s first modified)
    refine ⟨events, heq, ?_, ?_, ?_⟩
    · intro b hb
      obtain ⟨hold, hcount⟩ := hmarked b hb
      obtain ⟨hne, hold⟩ := isMarked_of_handedOver hold
      refine ⟨hold, ?_⟩
      rw [List.count_cons_of_ne hne, hcount]
    · intro b n h
      refine hout b n (onChain_handedOver modified ?_)
      rw [← h, count_cons_eq, Nat.add_assoc]
    · intro hold hchain
      refine hlost (hold.cons fun b modified' heq hb => ?_) ?_
      · cases heq
        exact hchain first List.mem_cons_self hb
      · intro b hmem hb
        exact hchain b (List.mem_cons_of_mem _ hmem) (isMarked_of_handedOver hb).2

/-- The released buffers are handed over. -/
theorem Consistent.buffersRelease (hs : Consistent m s) : Consistent m (buffersRelease s) := by
  obtain ⟨hcountB, hcountR, hcountM⟩ := hs.counts
  obtain ⟨events, heq, hmarked, hout, hlost⟩ := releaseChain_spec s false s.release
  obtain ⟨events', heq', hmarked', hout', hlost'⟩ := releaseChain_spec
    { s with
      events
      release := []
      releaseCount := s.releaseCount - s.release.length } true s.releaseModified
  simp only [Buffer.buffersRelease, heq, heq']
  refine ⟨⟨hcountB, by simp [hcountR], by simp [hcountM]⟩, ?_, hs.references, hs.attached, hs.bnum,
    fun _ => ⟨rfl, rfl⟩, ?_, ?_⟩
  · intro b
    refine hout' b _ (hout b _ ?_)
    rw [← hs.onChain b]
    show s.buffers.count b + 0 + 0 + s.releaseModified.count b + s.release.count b = _
    omega
  · intro b hb
    obtain ⟨hone, hmodified⟩ := hmarked' b hb
    obtain ⟨hold, -⟩ := hmarked b hone
    rcases hs.carried b hold with hholder | hcount
    · exact Or.inl hholder
    · exact absurd hmodified hcount
  · refine hlost' (hlost hs.noneLost ?_) fun _ _ _ => rfl
    intro b hmem hb
    have hunmarked := hs.not_marked (Nat.ne_of_gt (List.count_pos_iff.mpr hmem))
    exact absurd (hunmarked.symm.trans hb) (by simp)

end Rtems.Rfs.Buffer
