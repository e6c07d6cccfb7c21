import Rtems.Models.Rfs.BlockMap.Refinement

/-!
# A growth succeeds while there are blocks

If the blocks offered by the allocator are unused, every step of a growth succeeds: it takes
one block and at most two tables. This lets a map grow past the bound on its count when the
check of the new count wraps around in `size_t`; such a map finds none of its blocks.
-/

namespace Rtems.Rfs.BlockMap

open Paged

variable {fs : FileSystem} {base : BlockNo → Bool} {s : State} {m k : Nat}

/-- Allocations that find the blocks from `m` on. -/
def blocksFrom (m k : Nat) : Outcomes := (List.range' m k).map some

/-- All blocks from `m` on are unused. -/
def UnusedFrom (s : State) (m : Nat) : Prop := ∀ b, m ≤ b → s.marked b = false

theorem UnusedFrom.update (hfree : UnusedFrom s m) :
    UnusedFrom { s with marked := Function.update s.marked m true } (m + 1) := by
  intro b hb
  exact (Function.update_of_ne (Nat.ne_of_gt hb) ..).trans (hfree b (by omega))

section

variable (hm : 0 < m) (hfree : UnusedFrom s m)
include hm hfree

theorem groupBitmapAlloc_blocksFrom (hlt : m < fs.blocks) :
    groupBitmapAlloc fs s (blocksFrom m (k + 1)) =
      (some m, { s with marked := Function.update s.marked m true }, blocksFrom (m + 1) k) := by
  rw [blocksFrom, List.range'_succ, List.map_cons, groupBitmapAlloc,
    if_pos ⟨hm, hlt, hfree m le_rfl⟩]
  rfl

theorem indirectAlloc_blocksFrom (h : Handle) (upping : Bool) (hlt : m < fs.blocks) :
    ∃ s', indirectAlloc fs s h upping (blocksFrom m (k + 1)) =
      (some m, s', blocksFrom (m + 1) k) ∧ UnusedFrom s' (m + 1) := by
  rw [indirectAlloc, groupBitmapAlloc_blocksFrom hm hfree hlt]
  refine ⟨_, rfl, ?_⟩
  cases h <;> cases upping <;> exact hfree.update

/-- A table is attached with at most one of the blocks offered. -/
theorem attachTable_blocksFrom (h : Handle) (n : Nat) (upping : Bool) (hlt : m < fs.blocks) :
    ∃ s' j, j ≤ 1 ∧ attachTable fs s h n upping (blocksFrom m (k + 1)) =
      (true, s', blocksFrom (m + j) (k + 1 - j)) ∧ UnusedFrom s' (m + j) := by
  simp only [attachTable]
  split
  · obtain ⟨s', halloc, hfree'⟩ := indirectAlloc_blocksFrom (k := k) hm hfree h upping hlt
    rw [halloc]
    exact ⟨_, 1, le_rfl, rfl, hfree'⟩
  · refine ⟨_, 0, Nat.zero_le _, rfl, ?_⟩
    cases h <;> exact hfree

/-- The tables of a doubly indirect map are made ready with at most two of the blocks
offered. -/
theorem growDoubly_blocksFrom (hlt : m + 2 ≤ fs.blocks) :
    ∃ s' j, j ≤ 2 ∧ growDoubly fs s (blocksFrom m (k + 2)) =
      (true, s', blocksFrom (m + j) (k + 2 - j)) ∧ UnusedFrom s' (m + j) := by
  simp only [growDoubly]
  split
  · obtain ⟨s₁, halloc, hfree₁⟩ :=
      indirectAlloc_blocksFrom (k := k + 1) hm hfree .singly false (show m < fs.blocks by omega)
    obtain ⟨s₂, j, hj, hattach, hfree₂⟩ := attachTable_blocksFrom (k := k) m.succ_pos hfree₁
      .doubly (s₁.size.count / fs.blocksPerBlock) (s₁.size.count == fs.blockMapSinglyBlocks)
      (show m + 1 < fs.blocks by omega)
    have hnext : m + 1 + j = m + (j + 1) := by omega
    have hleft : k + 1 - j = k + 2 - (j + 1) := by omega
    rw [hnext, hleft] at hattach
    rw [hnext] at hfree₂
    simp only [halloc, growTable, hattach]
    exact ⟨_, j + 1, by omega, rfl, hfree₂⟩
  · exact ⟨_, 0, Nat.zero_le _, rfl, hfree⟩

/-- A growth step succeeds with at most three of the blocks offered. -/
theorem growStep_blocksFrom (hlt : m + 3 ≤ fs.blocks) :
    ∃ b s' j, j ≤ 3 ∧ growStep fs s (blocksFrom m (k + 3)) =
      (some b, s', blocksFrom (m + j) (k + 3 - j)) ∧ UnusedFrom s' (m + j) := by
  have hfree₁ := hfree.update
  have halloc := groupBitmapAlloc_blocksFrom (k := k + 2) hm hfree (show m < fs.blocks by omega)
  generalize ({ s with marked := Function.update s.marked m true } : State) = s₁ at hfree₁ halloc
  obtain ⟨s₂, j, hj, hgrown, hfree₂⟩ : ∃ s₂ j, j ≤ 2 ∧
      (if s₁.size.count < fs.blockMapSinglyBlocks then
          growSingly fs s₁ (blocksFrom (m + 1) (k + 2))
        else growDoubly fs s₁ (blocksFrom (m + 1) (k + 2))) =
        (true, s₂, blocksFrom (m + 1 + j) (k + 2 - j)) ∧ UnusedFrom s₂ (m + 1 + j) := by
    split
    · obtain ⟨s₂, j, hj, hattach, hfree₂⟩ := attachTable_blocksFrom (k := k + 1) m.succ_pos hfree₁
        .singly s₁.size.count (s₁.size.count == inodeBlocks) (show m + 1 < fs.blocks by omega)
      exact ⟨s₂, j, by omega, hattach, hfree₂⟩
    · exact growDoubly_blocksFrom m.succ_pos hfree₁ (by omega)
  have hnext : m + 1 + j = m + (j + 1) := by omega
  have hleft : k + 2 - j = k + 3 - (j + 1) := by omega
  rw [hnext, hleft] at hgrown
  rw [hnext] at hfree₂
  simp only [growStep, halloc, hgrown]
  split
  · exact ⟨_, _, 1, by omega, rfl, hfree₁⟩
  · exact ⟨_, _, j + 1, by omega, rfl, hfree₂⟩

end

/-- A growth succeeds with three blocks offered for each block it adds. -/
theorem growLoop_blocksFrom (n : Nat) (hm : 0 < m) (hfree : UnusedFrom s m)
    (hlt : m + 3 * n ≤ fs.blocks) (hk : 3 * n ≤ k) :
    ∃ added s', growLoop fs n s (blocksFrom m k) = (.ok, added, s') ∧
      UnusedFrom s' (m + 3 * n) := by
  induction n generalizing s m k with
  | zero => exact ⟨[], s, rfl, hfree⟩
  | succ n ih =>
    obtain ⟨k, rfl⟩ := Nat.exists_eq_add_of_le' (show 3 ≤ k by omega)
    obtain ⟨b, s₁, j, hj, hstep, hfree₁⟩ := growStep_blocksFrom (k := k) hm hfree
      (show m + 3 ≤ fs.blocks by omega)
    obtain ⟨added, s', hloop, hfree'⟩ := ih (m := m + j) (k := k + 3 - j) (by omega) hfree₁
      (by omega) (by omega)
    refine ⟨b :: added, s', ?_, fun c hc => hfree' c (by omega)⟩
    rw [growLoop, hstep]
    simp only [hloop]

section

variable (hsingly : fs.blockMapSinglyBlocks = fs.blocksPerBlock * inodeBlocks)
  (hdoubly : fs.blocksPerBlock * inodeBlocks < fs.blockMapDoublyBlocks)
include hsingly hdoubly

theorem lookup_eq_enxio (hcount : fs.blockMapDoublyBlocks ≤ s.size.count) (i : Nat) :
    lookup fs s i = (.enxio, 0, s) := by
  have hlt := inodeBlocks_lt_mul fs
  have h1 : ¬ s.size.count ≤ inodeBlocks := by omega
  have h2 : ¬ s.size.count ≤ fs.blocksPerBlock * inodeBlocks := by omega
  have h3 : ¬ s.size.count < fs.blockMapDoublyBlocks := by omega
  simp only [lookup, if_neg h1, hsingly, if_neg h2, if_neg h3]

/-- A growth up to the bound, and one whose new count wraps around to zero. -/
def growPastBound (fs : FileSystem) (n : Nat) : List Op :=
  [.grow n (blocksFrom 1 (3 * n)), .grow (2 ^ fs.sizeBits - n) (blocksFrom (1 + 3 * n) 3)]

/-- A growth whose new count wraps around adds a block to a map with the greatest count; then
the first block is found no more. -/
theorem growPastBound_spec {n : Nat} (hn : n + 1 = fs.blockMapDoublyBlocks)
    (hroom : 1 + 3 * n + 3 ≤ fs.blocks) :
    ∃ s, Run (step fs) (fun _ _ => True) (start fun _ => false) (growPastBound fs n) s ∧
      0 < s.state.size.count ∧ (blockMapFind fs s.state ⟨0, 0, 0⟩).1 = .enxio := by
  have hwidth : n < 2 ^ fs.sizeBits := by
    have : fs.blockMapDoublyBlocks < 2 ^ fs.sizeBits := Nat.mod_lt _ (Nat.two_pow_pos _)
    omega
  -- The first growth is within the bound and fills the map up to it.
  obtain ⟨added, s₁, hloop, hfree⟩ := growLoop_blocksFrom (s := (start fun _ => false).state)
    n (show 0 < 1 by decide) (fun _ _ => rfl) (show 1 + 3 * n ≤ fs.blocks by omega) le_rfl
  have hstart : Simulates fs (fun _ => false) (start fun _ => false)
    (⟨[], 0, 0, 0⟩, ⟨.ok, none⟩) := simulates_start
  obtain ⟨l₀, hnil, hrep₀⟩ := hstart.layout
  obtain ⟨hbpos, -, ⟨l, hdata, hrep⟩, hrc⟩ := growLoop_spec hsingly n hrep₀ hloop
  have hlength : l.data.length = n := by
    have hall : added.length = n := by simpa using hrc
    rw [hdata, hnil, List.nil_append, hall]
  have hfirst : step fs (start fun _ => false) (.grow n (blocksFrom 1 (3 * n))) =
      some ⟨s₁, ⟨.ok, added.head?⟩⟩ := by
    have hfits : ¬ fs.blockMapDoublyBlocks ≤
        ((start fun _ => false).state.size.count + n) % 2 ^ fs.sizeBits := by
      change ¬ _ ≤ (0 + n) % _
      rw [Nat.zero_add, Nat.mod_eq_of_lt hwidth]
      omega
    simp only [step, blockMapGrow, if_neg hfits, hloop]
  -- The check of the second growth wraps around to zero, and its first step succeeds.
  obtain ⟨b, s₂, j, -, hstep, -⟩ := growStep_blocksFrom (k := 0)
    (show 0 < 1 + 3 * n by omega) hfree hroom
  obtain ⟨m, hm⟩ : ∃ m, 2 ^ fs.sizeBits - n = m + 1 := ⟨2 ^ fs.sizeBits - n - 1, by omega⟩
  obtain ⟨rc, more, s₃, hrest⟩ : ∃ rc more s₃, growLoop fs (2 ^ fs.sizeBits - n) s₁
      (blocksFrom (1 + 3 * n) 3) = (rc, b :: more, s₃) := by
    rw [hm, growLoop, hstep]
    exact ⟨_, _, _, rfl⟩
  obtain ⟨hbpos', -, ⟨l', hdata', hrep'⟩, -⟩ := growLoop_spec hsingly _ hrep hrest
  have hsecond : step fs ⟨s₁, ⟨.ok, added.head?⟩⟩
      (.grow (2 ^ fs.sizeBits - n) (blocksFrom (1 + 3 * n) 3)) = some ⟨s₃, ⟨rc, some b⟩⟩ := by
    have hwraps : ¬ fs.blockMapDoublyBlocks ≤
        (s₁.size.count + (2 ^ fs.sizeBits - n)) % 2 ^ fs.sizeBits := by
      rw [hrep.located.count, hlength, Nat.add_sub_cancel' hwidth.le, Nat.mod_self]
      omega
    simp only [step, blockMapGrow, if_neg hwraps, hrest, List.head?_cons]
  have hcount : n + 1 ≤ s₃.size.count := by
    rw [hrep'.located.count, hdata', List.length_append, hlength, List.length_cons]
    omega
  have hpos : 0 < s₃.size.count := by omega
  refine ⟨_, .snoc (.snoc .nil trivial hfirst) trivial hsecond, hpos, ?_⟩
  have hblock : s₃.bpos.block = 0 := by
    rw [hbpos', hbpos]
    rfl
  have hinside : ¬ posBlockPastEnd ⟨0, 0, 0⟩ s₃.size := by
    rintro (⟨hne, -⟩ | hle)
    · exact hne rfl
    · exact absurd hle (Nat.not_le.2 hpos)
  have hlookup := lookup_eq_enxio hsingly hdoubly (hn ▸ hcount) 0
  simp [blockMapFind, hinside, hblock, hlookup]

end

/-- A file system of 512 MiB with a `size_t` of 32 bits; a map has less than 81920 blocks. -/
private def wideFs : FileSystem := ⟨32, 2 ^ 20, by decide, 512, hundredBlocks.blockSize_le⟩

/-- The map of a file grows to 81919 blocks; a growth by 4294885377 further blocks is not
refused, adds a block before the allocation fails, and then no block is found. -/
theorem block_map_grow_wraps : wideFs.blockMapDoublyBlocks = 81920 ∧
    ∃ s, Run (step wideFs) (fun _ _ => True) (start fun _ => false) (growPastBound wideFs 81919) s ∧
      0 < s.state.size.count ∧ (blockMapFind wideFs s.state ⟨0, 0, 0⟩).1 = .enxio :=
  ⟨rfl, growPastBound_spec rfl (by decide) rfl (by decide)⟩

end Rtems.Rfs.BlockMap
