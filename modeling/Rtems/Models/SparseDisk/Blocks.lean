import Rtems.Models.SparseDisk.State

/-!
# The contents of the blocks

The used keys are sorted, every key has a buffer of its own, and the unused buffers hold the fill
pattern. Then each block has its contents, and writing a block changes those of this block only,
if a block that gets a buffer is behind all others with one.
-/

namespace Rtems.Sparse

variable {sd : SparseDisk}

/-- The table and the buffers are in order. -/
structure Valid (sd : SparseDisk) : Prop where
  /-- The blocks have bytes. -/
  size_pos : 0 < sd.mediaBlockSize
  /-- The table has a key for each buffer. -/
  length : sd.keyTable.length = sd.blocksWithBuffer
  /-- The used keys are in the table. -/
  used_le : sd.usedCount ≤ sd.blocksWithBuffer
  /-- The used keys are sorted. -/
  sorted : Ascending Key.block sd.keyTable sd.usedCount
  /-- The buffers do not overlap. -/
  apart : ∀ (i j : Nat) (a b : Key), i ≠ j → sd.keyTable[i]? = some a → sd.keyTable[j]? = some b →
    a.data + sd.mediaBlockSize ≤ b.data ∨ b.data + sd.mediaBlockSize ≤ a.data
  /-- The unused buffers hold the fill pattern. -/
  unused : ∀ (i : Nat) (a : Key), sd.usedCount ≤ i → sd.keyTable[i]? = some a →
    ∀ j, j < sd.mediaBlockSize → sd.data (a.data + j) = sd.fillPattern

/-- The block has a buffer. -/
def Buffered (sd : SparseDisk) (block : Nat) : Prop :=
  ∃ i : Nat, ∃ a : Key, i < sd.usedCount ∧ sd.keyTable[i]? = some a ∧ a.block = block

/-- The byte of a block at an offset. -/
def contents (sd : SparseDisk) (block j : Nat) : UInt8 :=
  match findKey sd block with
  | some key => sd.data (keyData sd key + j)
  | none => sd.fillPattern

variable {a : Key}
  {i : Nat} {n : Nat}

/-- The key of a block with a buffer is found. -/
theorem Valid.findKey_eq (h : Valid sd) (hi : i < sd.usedCount)
    (ha : sd.keyTable[i]? = some a) : findKey sd a.block = some i := by
  have hlen : sd.usedCount ≤ sd.keyTable.length := h.length ▸ h.used_le
  cases hfind : findKey sd a.block with
  | none => exact absurd rfl (bsearch_none h.sorted hlen hfind i a hi ha)
  | some i' =>
    obtain ⟨hi', a', ha', hblock⟩ := bsearch_some h.sorted hlen hfind
    rcases Nat.lt_trichotomy i i' with hlt | rfl | hgt
    · have := h.sorted i i' a a' hlt hi' ha ha'
      omega
    · rfl
    · have := h.sorted i' i a' a hgt hi ha' ha
      omega

theorem Valid.of_findKey (h : Valid sd) {block i : Nat} (hfind : findKey sd block = some i) :
    i < sd.usedCount ∧ ∃ a, sd.keyTable[i]? = some a ∧ a.block = block :=
  bsearch_some h.sorted (h.length ▸ h.used_le) hfind

variable {block : Nat}

/-- A disk whose table has the key of a block at an index, and the same other keys and bytes. -/
structure Wrote (sd sd' : SparseDisk) (block : Nat) (bytes : Nat → UInt8) (n : Nat) : Prop where
  /-- The table and the buffers are in order. -/
  valid : Valid sd'
  /-- The size of the blocks stays. -/
  size_eq : sd'.mediaBlockSize = sd.mediaBlockSize
  /-- The number of buffers stays. -/
  buffers_eq : sd'.blocksWithBuffer = sd.blocksWithBuffer
  /-- The fill pattern stays. -/
  fill_eq : sd'.fillPattern = sd.fillPattern
  /-- The bytes of the block change, those of other blocks stay. -/
  contents_eq : ∀ b j, j < sd.mediaBlockSize → contents sd' b j =
    if b = block ∧ j < n then bytes j else contents sd b j

/-- Sorting a sorted table does nothing. -/
theorem sortKeys_eq {table : List Key} (h : Ascending Key.block table n) :
    sortKeys n table = table := by
  have hpairwise : (table.take n).Pairwise fun a b => a.block ≤ b.block := by
    rw [List.pairwise_iff_getElem]
    intro i j hi hj hij
    rw [List.length_take] at hi hj
    rw [List.getElem_take, List.getElem_take]
    exact Nat.le_of_lt (h i j _ _ hij (by omega) (List.getElem?_eq_getElem (by omega))
      (List.getElem?_eq_getElem (by omega)))
  rw [sortKeys, hpairwise.insertionSort_eq, List.take_append_drop]

/-- The disk with a key for a further block, which is behind all others. -/
def addKey (sd : SparseDisk) (block : Nat) : SparseDisk :=
  { sd with
    usedCount := sd.usedCount + 1
    keyTable := sd.keyTable.modify sd.usedCount fun key => { key with block } }

theorem addKey_getElem? (sd : SparseDisk) (block i : Nat) :
    (addKey sd block).keyTable[i]? =
      sd.keyTable[i]?.map fun key => if i = sd.usedCount then { key with block } else key := by
  simp only [addKey, List.getElem?_modify]
  by_cases hi : i = sd.usedCount
  · simp [hi]
  · simp [hi, Ne.symm hi]

/-- A key of the extended table has the buffer of the key at its place. -/
theorem addKey_cases {block i : Nat} (ha : (addKey sd block).keyTable[i]? = some a) :
    ∃ a₀, sd.keyTable[i]? = some a₀ ∧ a.data = a₀.data ∧
      (i = sd.usedCount → a.block = block) ∧ (i ≠ sd.usedCount → a = a₀) := by
  rw [addKey_getElem?] at ha
  obtain ⟨a₀, ha₀, rfl⟩ := Option.map_eq_some_iff.mp ha
  refine ⟨a₀, ha₀, ?_, ?_, ?_⟩
  · split <;> rfl
  · intro hi
    rw [if_pos hi]
  · intro hi
    rw [if_neg hi]

section

variable (h : Valid sd)
include h

/-- The key of a block without a buffer is not found. -/
theorem Valid.findKey_none :
    findKey sd block = none ↔ ¬ Buffered sd block := by
  constructor
  · rintro hfind ⟨i, a, hi, ha, hblock⟩
    exact bsearch_none h.sorted (h.length ▸ h.used_le) hfind i a hi ha hblock
  · intro hnot
    cases hfind : findKey sd block with
    | none => rfl
    | some i =>
      obtain ⟨hi, a, ha, hblock⟩ := h.of_findKey hfind
      exact absurd ⟨i, a, hi, ha, hblock⟩ hnot

theorem Valid.contents_eq (hi : i < sd.usedCount)
    (ha : sd.keyTable[i]? = some a) (j : Nat) : contents sd a.block j = sd.data (a.data + j) := by
  rw [contents, h.findKey_eq hi ha]
  simp only [keyData, ha, Option.map_some, Option.getD_some]

theorem Valid.contents_none (hnot : ¬ Buffered sd block) (j : Nat) :
    contents sd block j = sd.fillPattern := by
  rw [contents, h.findKey_none.mpr hnot]

/-- Writing the buffer of a key writes the block of the key. -/
theorem Valid.patch (hi : i < sd.usedCount)
    (ha : sd.keyTable[i]? = some a) (bytes : Nat → UInt8)
    (hn : n ≤ sd.mediaBlockSize) :
    Wrote sd { sd with data := patch sd.data (keyData sd i) bytes n } a.block bytes n := by
  have haddr : keyData sd i = a.data := by
    simp only [keyData, ha, Option.map_some, Option.getD_some]
  rw [haddr]
  have hother : ∀ (k : Nat) (b : Key), i ≠ k → sd.keyTable[k]? = some b → ∀ j, j < sd.mediaBlockSize →
      Rtems.patch sd.data a.data bytes n (b.data + j) = sd.data (b.data + j) := by
    intro k b hne hb j hj
    have hapart := h.apart i k a b hne ha hb
    exact patch_outside _ _ (by omega)
  have hvalid : Valid { sd with data := Rtems.patch sd.data a.data bytes n } := by
    refine { h with unused := ?_ }
    intro k b hk hb j hj
    have hk : sd.usedCount ≤ k := hk
    exact (hother k b (by omega) hb j hj).trans (h.unused k b hk hb j hj)
  refine ⟨hvalid, rfl, rfl, rfl, ?_⟩
  intro b j hj
  by_cases hb : Buffered sd b
  · obtain ⟨k, c, hk, hc, rfl⟩ := hb
    have hnew := hvalid.contents_eq hk hc j
    rw [hnew, h.contents_eq hk hc j]
    by_cases hsame : i = k
    · subst hsame
      obtain rfl : a = c := Option.some.inj (ha.symm.trans hc)
      by_cases hjn : j < n
      · rw [if_pos ⟨rfl, hjn⟩]
        exact patch_add _ _ hjn
      · rw [if_neg (fun hand => hjn hand.2)]
        exact patch_outside _ _ (by omega)
    · have hne : ¬ (c.block = a.block ∧ j < n) := by
        rintro ⟨hblock, -⟩
        have hfirst := h.findKey_eq hi ha
        have hsecond := h.findKey_eq hk hc
        rw [hblock, hfirst] at hsecond
        exact hsame (Option.some.inj hsecond)
      rw [if_neg hne]
      exact hother k c hsame hc j hj
  · have hne : ¬ (b = a.block ∧ j < n) := by
      rintro ⟨rfl, -⟩
      exact hb ⟨i, a, hi, ha, rfl⟩
    rw [if_neg hne, h.contents_none hb]
    exact hvalid.contents_none hb j

/-- A block behind all others gets a buffer with the fill pattern. -/
theorem Valid.addKey_spec (hroom : sd.usedCount < sd.blocksWithBuffer)
    (habove : ∀ b, Buffered sd b → b < block) :
    getNewBlock sd block = some (addKey sd block, sd.usedCount) ∧ Valid (addKey sd block) ∧
      ∀ b j, j < sd.mediaBlockSize → contents (addKey sd block) b j = contents sd b j := by
  have hsorted : Ascending Key.block (addKey sd block).keyTable (sd.usedCount + 1) := by
    intro i j a b hij hj ha hb
    obtain ⟨a₀, ha₀, -, -, ha₁⟩ := addKey_cases ha
    obtain ⟨b₀, hb₀, -, hb₁, hb₂⟩ := addKey_cases hb
    obtain rfl := ha₁ (by omega)
    by_cases hlast : j = sd.usedCount
    · rw [hb₁ hlast]
      exact habove _ ⟨i, a, by omega, ha₀, rfl⟩
    · obtain rfl := hb₂ hlast
      exact h.sorted i j a b hij (by omega) ha₀ hb₀
  have hvalid : Valid (addKey sd block) := by
    refine ⟨h.size_pos, ?_, hroom, hsorted, ?_, ?_⟩
    · show (sd.keyTable.modify _ _).length = _
      rw [List.length_modify]
      exact h.length
    · intro i j a b hne ha hb
      obtain ⟨a₀, ha₀, hdata, -⟩ := addKey_cases ha
      obtain ⟨b₀, hb₀, hdata', -⟩ := addKey_cases hb
      rw [hdata, hdata']
      exact h.apart i j a₀ b₀ hne ha₀ hb₀
    · intro i a hi ha j hj
      obtain ⟨a₀, ha₀, hdata, -⟩ := addKey_cases ha
      rw [hdata]
      exact h.unused i a₀ (Nat.le_of_succ_le hi) ha₀ j hj
  refine ⟨?_, hvalid, ?_⟩
  · rw [getNewBlock, if_pos hroom]
    have hsort : sortKeys (sd.usedCount + 1)
        (sd.keyTable.modify sd.usedCount fun key => { key with block }) =
        (addKey sd block).keyTable := sortKeys_eq hsorted
    simp only [hsort]
    rfl
  · intro b j hj
    by_cases hb : Buffered sd b
    · obtain ⟨i, a, hi, ha, rfl⟩ := hb
      have hkeep : (addKey sd block).keyTable[i]? = some a := by
        rw [addKey_getElem?, ha, Option.map_some, if_neg (by omega)]
      rw [h.contents_eq hi ha, hvalid.contents_eq (Nat.lt_succ_of_lt hi) hkeep]
      rfl
    · rw [h.contents_none hb]
      by_cases hnew : b = block
      · obtain ⟨a, ha⟩ : ∃ a, sd.keyTable[sd.usedCount]? = some a :=
          ⟨_, List.getElem?_eq_getElem (h.length ▸ hroom)⟩
        have hkey : (addKey sd block).keyTable[sd.usedCount]? = some { a with block } := by
          rw [addKey_getElem?, ha, Option.map_some, if_pos rfl]
        have hread := hvalid.contents_eq (Nat.lt_succ_self _) hkey j
        rw [hnew]
        exact hread.trans (h.unused _ a (Nat.le_refl _) ha j hj)
      · have hnot : ¬ Buffered (addKey sd block) b := by
          rintro ⟨i, a, hi, ha, hblock⟩
          obtain ⟨a₀, ha₀, -, hlast, hother⟩ := addKey_cases ha
          by_cases hi' : i = sd.usedCount
          · exact hnew (hblock.symm.trans (hlast hi'))
          · obtain rfl := hother hi'
            have hi : i < sd.usedCount + 1 := hi
            exact hb ⟨i, a, by omega, ha₀, hblock⟩
        exact hvalid.contents_none hnot j

/-- A write of a block with a number of bytes fails only if the block needs a buffer that there
is not. Otherwise it writes the block. -/
theorem writeBlock_spec (block : Nat) (bytes : Nat → UInt8) (size : Nat)
    (hn : n = min size sd.mediaBlockSize)
    (habove : needsWriting sd.fillPattern bytes n = true → ¬ Buffered sd block →
      sd.usedCount < sd.blocksWithBuffer → ∀ b, Buffered sd b → b < block) :
    (needsWriting sd.fillPattern bytes n = true ∧ ¬ Buffered sd block ∧
      sd.usedCount = sd.blocksWithBuffer ∧ writeBlock sd block bytes size = (sd, -1)) ∨
    (¬ (needsWriting sd.fillPattern bytes n = true ∧ ¬ Buffered sd block ∧
      sd.usedCount = sd.blocksWithBuffer) ∧
      ∃ sd', writeBlock sd block bytes size = (sd', toInt n) ∧ Wrote sd sd' block bytes n ∧
        (∀ b, Buffered sd' b ↔ Buffered sd b ∨
          (needsWriting sd.fillPattern bytes n = true ∧ b = block)) ∧
        (needsWriting sd.fillPattern bytes n = true ∧ ¬ Buffered sd block →
          sd'.usedCount = sd.usedCount + 1) ∧
        (¬ (needsWriting sd.fillPattern bytes n = true ∧ ¬ Buffered sd block) →
          sd'.usedCount = sd.usedCount)) := by
  have hle : n ≤ sd.mediaBlockSize := hn ▸ Nat.min_le_right _ _
  cases hfind : findKey sd block with
  | some i =>
    obtain ⟨hi, a, ha, rfl⟩ := h.of_findKey hfind
    have hbuf : Buffered sd a.block := ⟨i, a, hi, ha, rfl⟩
    right
    refine ⟨fun hand => hand.2.1 hbuf, _, ?_, h.patch hi ha bytes hle, ?_,
      fun hand => absurd hbuf hand.2, fun _ => rfl⟩
    · simp only [writeBlock, hfind, ← hn]
    · intro b
      constructor
      · exact Or.inl
      · rintro (hb | ⟨-, rfl⟩)
        · exact hb
        · exact hbuf
  | none =>
    have hnot := h.findKey_none.mp hfind
    by_cases hneeds : needsWriting sd.fillPattern bytes n = true
    · by_cases hroom : sd.usedCount < sd.blocksWithBuffer
      · obtain ⟨hnew, hvalid, hkeep⟩ := h.addKey_spec hroom (habove hneeds hnot hroom)
        obtain ⟨a, ha⟩ : ∃ a, sd.keyTable[sd.usedCount]? = some a :=
          ⟨_, List.getElem?_eq_getElem (h.length ▸ hroom)⟩
        have hkey : (addKey sd block).keyTable[sd.usedCount]? = some { a with block } := by
          rw [addKey_getElem?, ha, Option.map_some, if_pos rfl]
        have hwrote := hvalid.patch (Nat.lt_succ_self _) hkey bytes hle
        right
        refine ⟨fun hand => by omega, _, ?_, ⟨hwrote.valid, rfl, rfl, rfl, ?_⟩, ?_,
          fun _ => rfl, fun hno => absurd ⟨hneeds, hnot⟩ hno⟩
        · simp only [writeBlock, hfind, ← hn, hneeds, if_true, hnew]
        · intro b j hj
          rw [hwrote.contents_eq b j hj, hkeep b j hj]
        · intro b
          constructor
          · rintro ⟨i, c, hi, hc, rfl⟩
            obtain ⟨c₀, hc₀, -, hlast, hother⟩ := addKey_cases hc
            by_cases hi' : i = sd.usedCount
            · exact Or.inr ⟨hneeds, hlast hi'⟩
            · obtain rfl := hother hi'
              have hi : i < sd.usedCount + 1 := hi
              exact Or.inl ⟨i, c, by omega, hc₀, rfl⟩
          · rintro (⟨i, c, hi, hc, rfl⟩ | ⟨-, rfl⟩)
            · refine ⟨i, c, Nat.lt_succ_of_lt hi, ?_, rfl⟩
              show (addKey sd block).keyTable[i]? = some c
              rw [addKey_getElem?, hc, Option.map_some, if_neg (by omega)]
            · exact ⟨sd.usedCount, _, Nat.lt_succ_self _, hkey, rfl⟩
      · left
        have hfull : sd.usedCount = sd.blocksWithBuffer := Nat.le_antisymm h.used_le (by omega)
        refine ⟨hneeds, hnot, hfull, ?_⟩
        simp only [writeBlock, hfind, ← hn, hneeds, if_true, getNewBlock, if_neg hroom]
    · right
      refine ⟨fun hand => hneeds hand.1, sd, ?_, ⟨h, rfl, rfl, rfl, ?_⟩, ?_,
        fun hand => absurd hand.1 hneeds, fun _ => rfl⟩
      · simp only [writeBlock, hfind, ← hn, hneeds, Bool.false_eq_true, if_false]
      · intro b j _
        by_cases hin : b = block ∧ j < n
        · -- The bytes are those of the fill pattern, as the block reads already.
          rw [if_pos hin, hin.1, h.contents_none hnot]
          simp only [needsWriting, Bool.not_eq_true, List.any_eq_false, List.mem_range,
            decide_eq_true_eq, not_not] at hneeds
          exact (hneeds j hin.2).symm
        · rw [if_neg hin]
      · intro b
        constructor
        · exact Or.inl
        · rintro (hb | ⟨hyes, -⟩)
          · exact hb
          · exact absurd hyes hneeds

end

end Rtems.Sparse
