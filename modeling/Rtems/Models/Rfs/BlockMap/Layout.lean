import Rtems.Core.Paged
import Rtems.Models.Rfs.BlockMap.State

/-!
# The layout of a block map

The data blocks of a map are kept in the inode or in singly indirect tables, and the singly
indirect tables in the inode or in doubly indirect tables: two levels of the same kind. The
blocks marked in use for the map are its data blocks and its tables, each once.
-/

namespace Rtems.Rfs.BlockMap

open Paged

/-- Blocks that are marked in use on top of the blocks of others, each once. -/
structure Owned (fs : FileSystem) (base : BlockNo → Bool) (s : State) (owned : List BlockNo) :
    Prop where
  nodup : owned.Nodup
  valid : ∀ b ∈ owned, 0 < b ∧ b < fs.blocks ∧ base b = false
  marked : ∀ b, s.marked b = true ↔ base b = true ∨ b ∈ owned
  once : s.freedTwice = 0

/-- The data blocks, the singly indirect tables and the doubly indirect tables of a map. -/
structure Layout where
  data : List BlockNo
  sing : List BlockNo
  doub : List BlockNo

/-- All blocks of a layout. -/
def Layout.blocks (l : Layout) : List BlockNo := l.data ++ l.sing ++ l.doub

/-- The blocks of a layout are found through the inode and the tables. -/
structure Located (fs : FileSystem) (s : State) (l : Layout) : Prop where
  count : s.size.count = l.data.length
  dataLevel : Level inodeBlocks fs.blocksPerBlock s.blocks s.table l.data l.sing
  singLevel : Level inodeBlocks fs.blocksPerBlock s.blocks s.table l.sing l.doub
  rooted : ∀ i x, l.doub[i]? = some x → s.blocks i = x

/-- The block number of the position, if known, is the one of its data block. -/
def Cached (s : State) (data : List BlockNo) : Prop :=
  s.bpos.block ≠ 0 → data[s.bpos.bno]? = some s.bpos.block

variable {fs : FileSystem} {base : BlockNo → Bool} {s s' : State} {l : Layout}
  {os os' : List BlockNo} {b : BlockNo} {o o' : Outcomes}

theorem inodeBlocks_lt (fs : FileSystem) : inodeBlocks < fs.blocksPerBlock := by
  have := fs.blockSize_le
  unfold inodeBlocks FileSystem.blocksPerBlock
  omega

theorem inodeBlocks_lt_mul (fs : FileSystem) :
    inodeBlocks < fs.blocksPerBlock * inodeBlocks := by
  have := inodeBlocks_lt fs
  unfold inodeBlocks at *
  omega

namespace Owned

theorem perm (h : Owned fs base s os) (hperm : os.Perm os') : Owned fs base s os' where
  nodup := hperm.nodup_iff.1 h.nodup
  valid b hb := h.valid b (hperm.mem_iff.2 hb)
  marked b := (h.marked b).trans (by rw [hperm.mem_iff])
  once := h.once

theorem congr (h : Owned fs base s os) (hmarked : s'.marked = s.marked)
    (hfreed : s'.freedTwice = s.freedTwice) : Owned fs base s' os where
  __ := h
  marked b := by rw [hmarked, h.marked]
  once := hfreed.trans h.once

/-- A block that is marked becomes owned. -/
theorem mark (h : Owned fs base s os) (hpos : 0 < b) (hlt : b < fs.blocks)
    (hfree : s.marked b = false) :
    Owned fs base { s with marked := Function.update s.marked b true } (b :: os) where
  nodup := by
    refine List.nodup_cons.2 ⟨fun hb => ?_, h.nodup⟩
    have := (h.marked b).2 (.inr hb)
    simp [hfree] at this
  valid b' hb' := by
    rcases List.mem_cons.1 hb' with rfl | hb'
    · refine ⟨hpos, hlt, ?_⟩
      cases hbase : base b' with
      | false => rfl
      | true =>
        have := (h.marked b').2 (.inl hbase)
        simp [hfree] at this
    · exact h.valid b' hb'
  marked b' := by
    have hmarked := h.marked b'
    by_cases hb' : b' = b
    · subst hb'
      simp
    · simp [hmarked, hb']
  once := h.once

/-- An owned block that is freed is owned no more. -/
theorem free (h : Owned fs base s (b :: os)) : Owned fs base (groupBitmapFree s b) os where
  nodup := (List.nodup_cons.1 h.nodup).2
  valid b' hb' := h.valid b' (List.mem_cons_of_mem _ hb')
  marked b' := by
    have hmarked := h.marked b'
    by_cases hb' : b' = b
    · subst hb'
      have hnot := (List.nodup_cons.1 h.nodup).1
      have hbase := (h.valid b' List.mem_cons_self).2.2
      simp [groupBitmapFree, hnot, hbase]
    · simp [groupBitmapFree, hmarked, hb']
  once := by
    have hmarked := (h.marked b).2 (.inr List.mem_cons_self)
    simp [groupBitmapFree, hmarked, h.once]

end Owned

/-- An allocation fails without effect or marks an unused block. -/
theorem groupBitmapAlloc_cases {r : Option BlockNo} (h : Owned fs base s os)
    (halloc : groupBitmapAlloc fs s o = (r, s', o')) :
    (r = none ∧ s' = s) ∨ ∃ b, r = some b ∧ some b ∈ o ∧ o' = o.tail ∧
      s' = { s with marked := Function.update s.marked b true } ∧ Owned fs base s' (b :: os) := by
  cases o with
  | nil =>
    cases halloc
    exact .inl ⟨rfl, rfl⟩
  | cons outcome rest =>
    cases outcome with
    | none =>
      cases halloc
      exact .inl ⟨rfl, rfl⟩
    | some b =>
      simp only [groupBitmapAlloc] at halloc
      split at halloc
      · rename_i hb
        cases halloc
        exact .inr ⟨b, rfl, List.mem_cons_self, rfl, rfl, h.mark hb.1 hb.2.1 hb.2.2⟩
      · cases halloc
        exact .inl ⟨rfl, rfl⟩

/-- A number written through a handle is the only change of the tables. -/
theorem setNumber_table (h : Handle) (i n y j : Nat) :
    (setNumber s h i n).table y j = if y = s.held h ∧ j = i then n else s.table y j := by
  unfold setNumber
  by_cases hy : y = s.held h
  · subst hy
    by_cases hj : j = i
    · simp [hj]
    · simp [hj]
  · simp [hy]

end Rtems.Rfs.BlockMap
