import Rtems.Models.Rfs.BlockMap.Grow

/-!
# Removing a block from a block map

The last block is removed from its table. A table that loses its last number is freed, and
the first table moves back into the inode when its numbers fit there; both levels of tables
shrink in the same way.
-/

namespace Rtems.Rfs.BlockMap

open Paged

variable {fs : FileSystem} {base : BlockNo → Bool} {s s' : State} {l : Layout}
  {os : List BlockNo} {k : Handle} {xs ys : List BlockNo} {x : BlockNo}

/-- The tables of a list have lost their last number and, with it, the tables `freed`. -/
structure Reduced (fs : FileSystem) (base : BlockNo → Bool) (s s' : State)
    (xs ys freed : List BlockNo) : Prop where
  size : s'.size = s.size
  bpos : s'.bpos = s.bpos
  table : s'.table = s.table
  owned : ∀ os, Owned fs base s (freed ++ os) → Owned fs base s' os
  level : Level inodeBlocks fs.blocksPerBlock s'.blocks s'.table xs ys
  rooted : inodeBlocks < xs.length → ∀ i y, ys[i]? = some y → s'.blocks i = y

theorem eq_append_of_getElem? {n : Nat} {y : BlockNo} (hlength : ys.length = n + 1)
    (hy : ys[n]? = some y) : ∃ ys', ys = ys' ++ [y] ∧ ys'.length = n := by
  have hpos : 0 < ys.length := by rw [hlength]; exact Nat.succ_pos n
  obtain ⟨ys', y', rfl⟩ : ∃ ys' y', ys = ys' ++ [y'] :=
    ⟨_, _, (List.dropLast_append_getLast (List.ne_nil_of_length_pos hpos)).symm⟩
  have hn : ys'.length = n := by simpa using hlength
  have hyy : y' = y := by simpa [← hn] using hy
  exact ⟨ys', by rw [hyy], hn⟩

/-- A shrink of a list whose tables are in the inode frees at most its last table. -/
theorem indirectShrink_spec (base : BlockNo → Bool)
    (hlevel : Level inodeBlocks fs.blocksPerBlock s.blocks s.table (xs ++ [x]) ys)
    (hroot : ∀ i y, ys[i]? = some y → s.blocks i = y) (hlo : inodeBlocks ≤ xs.length)
    (hheld : ys[xs.length / fs.blocksPerBlock]? = some (s.held k)) :
    ∃ ys' freed, ys = ys' ++ freed ∧
      Reduced fs base s (indirectShrink s k (xs.length / fs.blocksPerBlock)
        (xs.length % fs.blocksPerBlock)) xs ys' freed := by
  have hlt := inodeBlocks_lt fs
  unfold indirectShrink
  simp only [newTable_iff fs hlo]
  split
  · rename_i hcase
    rcases hcase with hn | ⟨hn, hmod⟩
    · obtain ⟨y, rfl, hpop⟩ : ∃ y, ys = [y] ∧ ∀ root : Nat → BlockNo,
          (∀ i < inodeBlocks, root i = s.table y i) →
          Level inodeBlocks fs.blocksPerBlock root s.table xs [] := hlevel.pop_spill hlt hn
      have hdiv : xs.length / fs.blocksPerBlock = 0 := by rw [hn, Nat.div_eq_of_lt hlt]
      have hmod : xs.length % fs.blocksPerBlock = inodeBlocks := by rw [hn, Nat.mod_eq_of_lt hlt]
      have hy : s.held k = y := by simpa [hdiv] using hheld.symm
      simp only [hdiv, hmod, and_self, if_true, hroot 0 y rfl]
      refine ⟨[], [y], rfl, rfl, rfl, rfl, fun os hown => hown.free.congr rfl rfl, ?_, by simp⟩
      apply hpop
      intro i hi
      simp [groupBitmapFree, hi, getNumber, hy]
    · have hne : ¬ (xs.length / fs.blocksPerBlock = 0 ∧ 0 = inodeBlocks) := fun h => by
        have := h.2
        unfold inodeBlocks at this
        omega
      have hpages := hlevel.pages
      have hnext : (xs ++ [x]).length = xs.length + 1 := by simp
      rw [hnext, (pagesFor_of_mod_eq_zero hlt hn hmod).2] at hpages
      obtain ⟨ys', rfl, hlength⟩ := eq_append_of_getElem? hpages hheld
      obtain ⟨y, hheldy⟩ := @exists_eq _ (s.held k)
      rw [← hheldy] at hlevel hroot hheld hpages ⊢
      have hy : s.blocks (xs.length / fs.blocksPerBlock) = y :=
        hroot _ y (by rw [← hlength]; simp)
      simp only [hmod, if_neg hne, hy]
      refine ⟨ys', [y], rfl, rfl, rfl, rfl, fun os hown => hown.free.congr rfl rfl, ?_, ?_⟩
      · exact hlevel.pop_page hlt hn hmod fun _ _ => rfl
      · intro _ i y' hy'
        have hi := (List.getElem?_eq_some_iff.1 hy').1
        have hslot := hroot i y' (by rw [List.getElem?_append_left hi, hy'])
        exact (Function.update_of_ne (by omega) ..).trans hslot
  · rename_i hcase
    have hn : inodeBlocks < xs.length := by omega
    have hmod : xs.length % fs.blocksPerBlock ≠ 0 := by tauto
    refine ⟨ys, [], by simp, rfl, rfl, rfl, fun _ => id, ?_, fun _ => hroot⟩
    exact hlevel.pop_entry hlt hn hmod fun _ _ => rfl

/-- The last block is removed from the tables; it and the freed tables are owned no more once
it is freed, too. -/
structure Removed (fs : FileSystem) (base : BlockNo → Bool) (s s' : State) (b : BlockNo)
    (l : Layout) : Prop where
  size : s'.size = s.size
  bpos : s'.bpos = s.bpos
  owned : Owned fs base s' (b :: l.blocks)
  dataLevel : Level inodeBlocks fs.blocksPerBlock s'.blocks s'.table l.data l.sing
  singLevel : Level inodeBlocks fs.blocksPerBlock s'.blocks s'.table l.sing l.doub
  rooted : ∀ i x, l.doub[i]? = some x → s'.blocks i = x

section Remove

variable {b : BlockNo} (h : Represents fs base s l) (hdata : l.data = xs ++ [b])
include h hdata

/-- The last block is removed from the inode. -/
theorem shrinkTables_direct (hlt : xs.length < inodeBlocks) :
    ∃ s' l', shrinkTables fs s = some (b, s') ∧ l'.data = xs ∧ Removed fs base s s' b l' := by
  have hloc := h.located
  have hsing : l.sing = [] := hloc.dataLevel.pages_eq_nil (by simp [hdata]; omega)
  have hdoub : l.doub = [] := hloc.singLevel.pages_eq_nil (by simp [hsing])
  have hcount : s.size.count - 1 = xs.length := by simp [hloc.count, hdata]
  have hlevel := hloc.dataLevel
  rw [hdata, hsing] at hlevel
  have hb : s.blocks xs.length = b := hlevel.fits (by simp; omega) _ b (by simp)
  have hperm : l.blocks.Perm (b :: (xs ++ [] ++ [])) := by
    simp only [Layout.blocks, hdata, hsing, hdoub, List.append_nil]
    exact List.perm_append_singleton b xs
  refine ⟨setSlot s xs.length 0, ⟨xs, [], []⟩, ?_, rfl, rfl, rfl, ?_, ?_, Level.nil, by simp⟩
  · simp only [shrinkTables, hcount, if_pos hlt, hb]
  · exact (h.owned.perm hperm).congr rfl rfl
  · apply hlevel.pop_root hlt
    intro i hi
    exact Function.update_of_ne hi.ne ..

variable (hsingly : fs.blockMapSinglyBlocks = fs.blocksPerBlock * inodeBlocks)
include hsingly

/-- The last block is removed from a singly indirect map. -/
theorem shrinkTables_singly (hlo : inodeBlocks ≤ xs.length)
    (hhi : xs.length < fs.blocksPerBlock * inodeBlocks) :
    ∃ s' l', shrinkTables fs s = some (b, s') ∧ l'.data = xs ∧ Removed fs base s s' b l' := by
  have hlt := inodeBlocks_lt fs
  have hloc := h.located
  have hcount : s.size.count - 1 = xs.length := by simp [hloc.count, hdata]
  have hpages : l.sing.length ≤ inodeBlocks := by
    rw [hloc.dataLevel.pages, hdata, pagesFor_le_iff hlt (by decide)]
    simp
    omega
  have hdoub : l.doub = [] := hloc.singLevel.pages_eq_nil hpages
  have hlevel := hloc.dataLevel
  rw [hdata] at hlevel
  obtain ⟨y, hy, hyb⟩ := hlevel.paged (by simp; omega) xs.length b (by simp)
  have hslot : s.blocks (xs.length / fs.blocksPerBlock) = y := hloc.singLevel.fits hpages _ y hy
  obtain ⟨t, ht⟩ := @exists_eq _ (handleRequest s .singly y)
  have hheld : t.held .singly = y := by
    rw [ht]
    rfl
  have hlevelt : Level inodeBlocks fs.blocksPerBlock t.blocks t.table (xs ++ [b]) l.sing := by
    rw [ht]
    exact hlevel
  have hroott : ∀ i y, l.sing[i]? = some y → t.blocks i = y := by
    rw [ht]
    exact hloc.singLevel.fits hpages
  obtain ⟨sing, freed, hsing, hred⟩ :=
    indirectShrink_spec base hlevelt hroott hlo (hheld ▸ hy)
  have hperm : l.blocks.Perm (freed ++ b :: (xs ++ sing ++ [])) := by
    rw [List.perm_iff_count]
    intro c
    simp only [Layout.blocks, hdata, hsing, hdoub, List.count_append, List.count_cons,
      List.count_nil]
    omega
  refine ⟨_, ⟨xs, sing, []⟩, ?_, rfl, hred.size.trans (ht ▸ rfl), hred.bpos.trans (ht ▸ rfl),
    hred.owned _ ((h.owned.perm hperm).congr (ht ▸ rfl) (ht ▸ rfl)), hred.level, ?_, by simp⟩
  · have hnot : ¬ xs.length < inodeBlocks := by omega
    simp only [shrinkTables, hcount, if_neg hnot, hsingly, if_pos hhi, hslot, ← ht]
    rw [getNumber, hheld, ht]
    exact congrArg some (congrArg (·, _) hyb)
  · rcases Nat.lt_or_eq_of_le hlo with hn | hn
    · apply Level.of_root _ (hred.rooted hn)
      rw [hsing, List.length_append] at hpages
      omega
    · have hnil : sing = [] := hred.level.pages_eq_nil hn.ge
      rw [hnil]
      exact Level.nil

/-- The last block is removed from a doubly indirect map. -/
theorem shrinkTables_doubly (hlo : fs.blocksPerBlock * inodeBlocks ≤ xs.length)
    (hhi : xs.length < fs.blockMapDoublyBlocks) :
    ∃ s' l', shrinkTables fs s = some (b, s') ∧ l'.data = xs ∧ Removed fs base s s' b l' := by
  have hlt := inodeBlocks_lt fs
  have hloc := h.located
  have hn : inodeBlocks < xs.length := (inodeBlocks_lt_mul fs).trans_le hlo
  have hcount : s.size.count - 1 = xs.length := by simp [hloc.count, hdata]
  have hlevel := hloc.dataLevel
  rw [hdata] at hlevel
  have hpages : inodeBlocks < l.sing.length := by
    by_contra hle
    rw [hloc.dataLevel.pages, hdata, not_lt, pagesFor_le_iff hlt (by decide)] at hle
    simp only [List.length_append, List.length_singleton] at hle
    omega
  obtain ⟨y, hy, hyb⟩ := hlevel.paged (by simp; omega) xs.length b (by simp)
  obtain ⟨z, hz, hzy⟩ := hloc.singLevel.paged hpages _ y hy
  have hslot := hloc.rooted _ z hz
  have hnot : ¬ xs.length < inodeBlocks := by omega
  have hnot' : ¬ xs.length < fs.blocksPerBlock * inodeBlocks := by omega
  obtain ⟨t, ht⟩ := @exists_eq _ (handleRequest (handleRequest s .doubly z) .singly y)
  have hsame : t.size = s.size ∧ t.bpos = s.bpos ∧ t.blocks = s.blocks ∧ t.table = s.table ∧
      t.marked = s.marked ∧ t.freedTwice = s.freedTwice := by
    rw [ht]
    exact ⟨rfl, rfl, rfl, rfl, rfl, rfl⟩
  obtain ⟨hsize, hbpos, hblocks, htable, hmarked, hfreed⟩ := hsame
  have hnumber : getNumber (handleRequest s .doubly z) .doubly
      (xs.length / fs.blocksPerBlock % fs.blocksPerBlock) = y := hzy
  have hblock : getNumber t .singly (xs.length % fs.blocksPerBlock) = b := by
    rw [ht]
    exact hyb
  simp only [shrinkTables, hcount, if_neg hnot, hsingly, if_neg hnot', if_pos hhi, hslot, hnumber,
    ← ht, hblock]
  split
  · rename_i hmod
    obtain ⟨sing, hsing, hlength⟩ : ∃ sing, l.sing = sing ++ [y] ∧
        sing.length = xs.length / fs.blocksPerBlock := by
      have hcountSing := hlevel.pages
      have hnext : (xs ++ [b]).length = xs.length + 1 := by simp
      rw [hnext, (pagesFor_of_mod_eq_zero hlt hn hmod).2] at hcountSing
      exact eq_append_of_getElem? hcountSing hy
    obtain ⟨t', ht'⟩ : ∃ t' : State, t' = { groupBitmapFree t y with lastMapBlock := y } :=
      ⟨_, rfl⟩
    have hblocks' : t'.blocks = s.blocks := by rw [ht', ← hblocks]; rfl
    have htable' : t'.table = s.table := by rw [ht', ← htable]; rfl
    have hheld : t'.held .doubly = z := by rw [ht', ht]; rfl
    have hlevelt : Level inodeBlocks fs.blocksPerBlock t'.blocks t'.table (sing ++ [y]) l.doub := by
      rw [hblocks', htable', ← hsing]
      exact hloc.singLevel
    have hroott : ∀ i y, l.doub[i]? = some y → t'.blocks i = y := by
      rw [hblocks']
      exact hloc.rooted
    have hfull : inodeBlocks ≤ sing.length := by
      rw [hsing, List.length_append, List.length_singleton] at hpages
      omega
    obtain ⟨doub, freed, hdoub, hred⟩ :=
      indirectShrink_spec base hlevelt hroott hfull (by rw [hlength, hheld]; exact hz)
    have hperm : l.blocks.Perm (y :: (freed ++ b :: (xs ++ sing ++ doub))) := by
      rw [List.perm_iff_count]
      intro c
      simp only [Layout.blocks, hdata, hsing, hdoub, List.count_append, List.count_cons,
        List.count_nil]
      omega
    have hown : Owned fs base t' (freed ++ b :: (xs ++ sing ++ doub)) := by
      rw [ht']
      exact ((h.owned.perm hperm).congr hmarked hfreed).free.congr rfl rfl
    rw [hlength] at hred
    refine ⟨_, ⟨xs, sing, doub⟩, by rw [ht'], rfl, hred.size.trans ?_, hred.bpos.trans ?_,
      hred.owned _ hown, ?_, hred.level, ?_⟩
    · rw [ht', ← hsize]
      rfl
    · rw [ht', ← hbpos]
      rfl
    · rw [hsing] at hlevel
      exact hlevel.pop_page hlt hn hmod fun _ _ => by rw [hred.table, htable']
    · rcases Nat.lt_or_eq_of_le hfull with hgt | heq
      · exact hred.rooted hgt
      · have hnil : doub = [] := hred.level.pages_eq_nil heq.ge
        simp [hnil]
  · rename_i hmod
    have hperm : l.blocks.Perm (b :: (xs ++ l.sing ++ l.doub)) := by
      rw [List.perm_iff_count]
      intro c
      simp only [Layout.blocks, hdata, List.count_append, List.count_cons, List.count_nil]
      omega
    refine ⟨t, ⟨xs, l.sing, l.doub⟩, rfl, rfl, hsize, hbpos,
      (h.owned.perm hperm).congr hmarked hfreed, ?_, ?_, ?_⟩
    · exact hlevel.pop_entry hlt hn hmod fun _ _ => by rw [htable]
    · rw [hblocks, htable]
      exact hloc.singLevel
    · rw [hblocks]
      exact hloc.rooted

end Remove

/-- Keeping the position inside the map keeps its block number right. -/
theorem cached_keepInside {data : List BlockNo} {p : BlockPos} {size : BlockSize}
    (hc : p.block ≠ 0 → data[p.bno]? = some p.block) (hne : (keepInside size p).block ≠ 0) :
    (data.take size.count)[(keepInside size p).bno]? = some (keepInside size p).block := by
  unfold keepInside at *
  split at hne
  · exact absurd rfl hne
  · rename_i hinside
    rw [if_neg hinside]
    have hlt : p.bno < size.count := by
      unfold posPastEnd at hinside
      omega
    rw [List.getElem?_take_of_lt hlt]
    exact hc hne

/-- The size after a shrink. -/
def shrunkSize (size : BlockSize) (n : Nat) : BlockSize :=
  ⟨size.count - n, if n = 0 then size.offset else 0⟩

section

variable (hsingly : fs.blockMapSinglyBlocks = fs.blocksPerBlock * inodeBlocks)
include hsingly

/-- One step of a shrink removes the last block. -/
theorem shrinkStep_spec {b : BlockNo} (h : Represents fs base s l) (hdata : l.data = xs ++ [b])
    (hhi : xs.length < fs.blockMapDoublyBlocks) :
    ∃ s' l', shrinkStep fs s = some s' ∧ l'.data = xs ∧ Represents fs base s' l' ∧
      s'.bpos = s.bpos ∧ s'.size.offset = 0 := by
  obtain ⟨t, l', htables, rfl, hrem⟩ : ∃ s' l', shrinkTables fs s = some (b, s') ∧ l'.data = xs ∧
      Removed fs base s s' b l' := by
    rcases Nat.lt_or_ge xs.length inodeBlocks with hlt | hge
    · exact shrinkTables_direct h hdata hlt
    rcases Nat.lt_or_ge xs.length (fs.blocksPerBlock * inodeBlocks) with hlt | hge'
    · exact shrinkTables_singly h hdata hsingly hge hlt
    · exact shrinkTables_doubly h hdata hsingly hge' hhi
  have hstep : shrinkStep fs s = some { groupBitmapFree t b with
      size := ⟨t.size.count - 1, 0⟩
      lastDataBlock := b
      dirty := true } := by
    rw [shrinkStep, htables]
  refine ⟨_, l', hstep, rfl, ⟨⟨?_, ?_, ?_, ?_⟩, ?_⟩, hrem.bpos, rfl⟩
  · change t.size.count - 1 = l'.data.length
    rw [hrem.size, h.located.count, hdata]
    simp
  · exact hrem.dataLevel
  · exact hrem.singLevel
  · exact hrem.rooted
  · exact hrem.owned.free.congr rfl rfl

/-- The loop of a shrink removes the last blocks. -/
theorem shrinkLoop_spec (n : Nat) (h : Represents fs base s l) (hn : n ≤ l.data.length)
    (hhi : l.data.length ≤ fs.blockMapDoublyBlocks) :
    ∃ l', l'.data = l.data.take (l.data.length - n) ∧ Represents fs base (shrinkLoop fs n s) l' ∧
      (shrinkLoop fs n s).bpos = s.bpos ∧
      (shrinkLoop fs n s).size.offset = if n = 0 then s.size.offset else 0 := by
  induction n generalizing s l with
  | zero => exact ⟨l, by simp, h, rfl, rfl⟩
  | succ n ih =>
    have hpos : l.data ≠ [] := List.ne_nil_of_length_pos (by omega)
    have hdata := (List.dropLast_append_getLast hpos).symm
    obtain ⟨s₁, l₁, hstep, hdata₁, h₁, hbpos, hoffset⟩ :=
      shrinkStep_spec hsingly h hdata (by rw [List.length_dropLast]; omega)
    have hlength : l₁.data.length = l.data.length - 1 := by rw [hdata₁, List.length_dropLast]
    obtain ⟨l', hdata', h', hbpos', hoffset'⟩ := ih h₁ (by omega) (by omega)
    have hloop : shrinkLoop fs (n + 1) s = shrinkLoop fs n s₁ := by rw [shrinkLoop, hstep]
    rw [hloop]
    refine ⟨l', ?_, h', hbpos'.trans hbpos, ?_⟩
    · rw [hdata', hlength, hdata₁, List.dropLast_eq_take, List.take_take]
      congr 1
      omega
    · rw [hoffset', hoffset, ite_self, if_neg (Nat.succ_ne_zero n)]

/-- A shrink removes exactly the last blocks and keeps the position inside the map. -/
theorem blockMapShrink_spec (n : Nat) (h : Represents fs base s l) (hc : Cached s l.data)
    (hhi : l.data.length ≤ fs.blockMapDoublyBlocks) (hne : l.data ≠ []) :
    (∃ l', l'.data = l.data.take (l.data.length - n) ∧
      Represents fs base (blockMapShrink fs s n) l' ∧ Cached (blockMapShrink fs s n) l'.data) ∧
    (blockMapShrink fs s n).size = shrunkSize s.size n ∧
    (blockMapShrink fs s n).bpos = keepInside (shrunkSize s.size n) s.bpos := by
  have hcount := h.located.count
  have hpos := List.length_pos_of_ne_nil hne
  obtain ⟨l', hdata, h', hbpos, hoffset⟩ :=
    shrinkLoop_spec hsingly (min n s.size.count) h (by omega) hhi
  have hdata' : l'.data = l.data.take (l.data.length - n) := by
    rw [hdata]
    congr 1
    omega
  obtain ⟨t, ht⟩ := @exists_eq _ (shrinkLoop fs (min n s.size.count) s)
  rw [← ht] at h' hbpos hoffset
  have hcount' : t.size.count = s.size.count - n := by
    have hlength := h'.located.count
    rw [hdata', List.length_take] at hlength
    omega
  have hsize : t.size = shrunkSize s.size n := by
    have hmin : min n s.size.count = 0 ↔ n = 0 := by omega
    simp only [hmin] at hoffset
    rw [shrunkSize, ← hoffset, ← hcount']
  have hshrink : ∃ map data : BlockNo, blockMapShrink fs s n = { t with
      lastMapBlock := map
      lastDataBlock := data
      bpos := keepInside t.size t.bpos } := by
    have hzero : ¬ s.size.count = 0 := by omega
    simp only [blockMapShrink, if_neg hzero, ← ht]
    split
    · exact ⟨0, 0, rfl⟩
    · exact ⟨_, _, rfl⟩
  obtain ⟨map, data, hshrink⟩ := hshrink
  rw [hshrink, ← hsize, ← hbpos]
  refine ⟨⟨l', hdata', ⟨⟨?_, ?_, ?_, ?_⟩, h'.owned.congr rfl rfl⟩, ?_⟩, rfl, rfl⟩
  · exact h'.located.count
  · exact h'.located.dataLevel
  · exact h'.located.singLevel
  · exact h'.located.rooted
  · have hkept : l'.data = l.data.take t.size.count := by rw [hdata', hcount', hcount]
    intro hblock
    rw [hkept]
    exact cached_keepInside (by rw [hbpos]; exact hc) hblock

end

end Rtems.Rfs.BlockMap
