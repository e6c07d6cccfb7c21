import Rtems.Models.Rfs.Buffer.State

/-!
# Consistent buffer chains

A buffer that was obtained and not handed over is on exactly one chain, the counters are the
lengths of the chains, a buffer is attached exactly while handles hold it and its references are
their number. The mark of a modified block is carried by a handle that holds the block or by the
chain it is on.
-/

namespace Rtems.Rfs.Buffer

/-- The handle holds the block. -/
def Handle.holds (block : Nat) (handle : Handle) : Bool :=
  handle.buffer = some block

/-- The number of handles that hold the block. -/
def State.holders (s : State) (block : Nat) : Nat :=
  s.handles.countP (Handle.holds block)

/-- The block was marked since it was handed over last. -/
def isMarked : List Event → Nat → Bool
  | [], _ => false
  | .obtained _ :: events, block => isMarked events block
  | .marked b :: events, block => if b = block then true else isMarked events block
  | .handedOver b _ :: events, block => if b = block then false else isMarked events block

/-- The buffer of the block was obtained and not handed over since. -/
def isOut : List Event → Nat → Bool
  | [], _ => false
  | .obtained b :: events, block => if b = block then true else isOut events block
  | .marked _ :: events, block => isOut events block
  | .handedOver b _ :: events, block => if b = block then false else isOut events block

/-- A block that was marked since it was handed over last is handed over as modified. -/
def NoneLost (events : List Event) : Prop :=
  ∀ later block modified earlier, events = later ++ .handedOver block modified :: earlier →
    isMarked earlier block = true → modified = true

theorem NoneLost.cons {event : Event} {events : List Event} (h : NoneLost events)
    (hevent : ∀ block modified, event = .handedOver block modified →
      isMarked events block = true → modified = true) : NoneLost (event :: events) := by
  intro later block modified earlier heq
  cases later with
  | nil =>
    obtain ⟨rfl, rfl⟩ := List.cons.inj heq
    exact hevent block modified rfl
  | cons first later => exact h later block modified earlier (List.cons.inj heq).2

/-- The invariant of the buffer layer. -/
structure Consistent (m : Mount) (s : State) : Prop where
  /-- The counters are the lengths of the chains. -/
  counts : s.buffersCount = s.buffers.length ∧ s.releaseCount = s.release.length ∧
    s.releaseModifiedCount = s.releaseModified.length
  /-- A buffer that was obtained and not handed over is on one chain, once; another is on none. -/
  onChain : ∀ block, s.buffers.count block + s.release.count block +
    s.releaseModified.count block = if isOut s.events block then 1 else 0
  /-- The references are the handles that hold the block. -/
  references : ∀ block, s.references block = s.holders block
  /-- A buffer is attached while it has references. -/
  attached : ∀ block, s.buffers.count block = 0 ↔ s.references block = 0
  /-- A handle with a buffer knows its block. -/
  bnum : ∀ handle ∈ s.handles, ∀ block, handle.buffer = some block → handle.bnum = block
  /-- Without a local cache nothing is kept. -/
  uncached : m.noLocalCache = true → s.release = [] ∧ s.releaseModified = []
  /-- A mark is carried by a handle or by the chain of modified buffers. -/
  carried : ∀ block, isMarked s.events block = true →
    (∃ handle ∈ s.handles, handle.buffer = some block ∧ handle.dirty = true) ∨
      s.releaseModified.count block ≠ 0
  /-- No mark was lost at a hand-over. -/
  noneLost : NoneLost s.events

theorem Consistent.exclusive {m : Mount} {s : State} (hs : Consistent m s) (block : Nat) :
    s.buffers.count block + s.release.count block + s.releaseModified.count block ≤ 1 := by
  rw [hs.onChain block]
  split <;> decide

/-- A file system just opened. -/
theorem Consistent.start (m : Mount) (handles : Nat) : Consistent m (start handles) where
  counts := ⟨rfl, rfl, rfl⟩
  onChain := fun _ => rfl
  references := by
    intro block
    have hnone : (Buffer.start handles).handles.countP (Handle.holds block) = 0 := by
      rw [List.countP_eq_zero]
      intro handle hmem
      rw [List.eq_of_mem_replicate hmem]
      simp [Handle.holds, Handle.closed]
    exact hnone.symm
  attached := fun _ => ⟨fun _ => rfl, fun _ => rfl⟩
  bnum := by
    intro handle hmem block hbuffer
    rw [List.eq_of_mem_replicate hmem] at hbuffer
    cases hbuffer
  uncached := fun _ => ⟨rfl, rfl⟩
  carried := fun _ h => absurd h (by simp [Buffer.start, isMarked])
  noneLost := by
    intro later block modified earlier heq
    cases later <;> cases heq

variable {chain rest : List Nat} {block : Nat}

/-- What the scan of a chain finds. -/
theorem scanFrom_some (h : scanFrom chain block = some rest) :
    chain.length = rest.length + 1 ∧
      ∀ b, chain.count b = rest.count b + if b = block then 1 else 0 := by
  induction chain generalizing rest with
  | nil => cases h
  | cons node previous ih =>
    simp only [scanFrom] at h
    split at h
    next heq =>
      cases h
      refine ⟨rfl, fun b => ?_⟩
      rw [List.count_cons, heq]
      by_cases hb : b = block
      · simp [hb]
      · simp [hb, Ne.symm hb]
    next hne =>
      obtain ⟨rest', hrest', rfl⟩ := Option.map_eq_some_iff.mp h
      obtain ⟨hlength, hcount⟩ := ih hrest'
      refine ⟨by simp [hlength], fun b => ?_⟩
      rw [List.count_cons, List.count_cons, hcount b]
      omega

/-- What the scan of a chain does not find is not there. -/
theorem scanFrom_none {chain : List Nat} (h : scanFrom chain block = none) :
    chain.count block = 0 := by
  induction chain with
  | nil => rfl
  | cons node previous ih =>
    simp only [scanFrom] at h
    split at h
    next => cases h
    next hne => rw [List.count_cons, ih (Option.map_eq_none_iff.mp h)]; simp [hne]

theorem scanChain_some (h : scanChain chain block = some rest) :
    chain.length = rest.length + 1 ∧
      ∀ b, chain.count b = rest.count b + if b = block then 1 else 0 := by
  obtain ⟨rest', hrest', rfl⟩ := Option.map_eq_some_iff.mp h
  obtain ⟨hlength, hcount⟩ := scanFrom_some hrest'
  rw [List.length_reverse] at hlength
  refine ⟨by rw [hlength, List.length_reverse], fun b => ?_⟩
  rw [List.count_reverse, ← List.count_reverse, hcount b]

/-- A scan, skipped for an empty chain, that finds nothing. -/
theorem scanChain_none {chain : List Nat} {count block : Nat} (hcount : count = chain.length)
    (h : (if count ≠ 0 then scanChain chain block else none) = none) :
    chain.count block = 0 := by
  split at h
  next =>
    have hfrom := scanFrom_none (Option.map_eq_none_iff.mp h)
    rwa [List.count_reverse] at hfrom
  next hzero =>
    have hempty : chain = [] :=
      List.eq_nil_of_length_eq_zero (hcount.symm.trans (Decidable.not_not.mp hzero))
    rw [hempty, List.count_nil]

theorem scanChain_of_guarded {count block : Nat}
    (h : (if count ≠ 0 then scanChain chain block else none) = some rest) :
    scanChain chain block = some rest := by
  split at h
  next => exact h
  next => cases h

variable {handles : List Handle} {handle : Handle} {i : Nat}

theorem holders_set (hi : handles[i]? = some handle) (handle' : Handle) (block : Nat) :
    (handles.set i handle').countP (Handle.holds block) =
      (handles.countP (Handle.holds block) - if handle.holds block then 1 else 0) +
        if handle'.holds block then 1 else 0 := by
  obtain ⟨hlt, hget⟩ := List.getElem?_eq_some_iff.mp hi
  rw [List.countP_set hlt, hget]

theorem holders_pos (hi : handles[i]? = some handle) (hholds : handle.buffer = some block) :
    1 ≤ handles.countP (Handle.holds block) := by
  rw [Nat.one_le_iff_ne_zero, ← Nat.pos_iff_ne_zero, List.countP_pos_iff]
  exact ⟨handle, List.mem_of_getElem? hi, by simp [Handle.holds, hholds]⟩

end Rtems.Rfs.Buffer
