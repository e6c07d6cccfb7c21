import Mathlib.Algebra.Order.Ring.Nat
import Rtems.Models.Rfs.File.State

/-!
# Positions and sizes in blocks

A position is a block and an offset below the block size; a size is a number of blocks and
the bytes used in the last one, where zero stands for a full block. The lemmas translate
both to byte counts, and the ambiguous test for positions past the end to what it decides.
-/

namespace Rtems.Rfs.File

variable {β : Type} {bs : Nat}

/-- `rtems_rfs_block_get_pos`. -/
def BlockPos.pos (bs : Nat) (bpos : BlockPos) : Nat :=
  bpos.bno * bs + bpos.boff

/-- The number of bytes of a file. -/
def Map.bytes (bs : Nat) (m : Map β) : Nat :=
  m.size.bytes bs

/-- The byte at a position. -/
def Map.byteAt (bs : Nat) (m : Map β) (p : Nat) : Option β :=
  m.blocks[p / bs]?.map fun block => block (p % bs)

/-- The offset in the last block is below the block size, and zero without blocks. -/
structure Map.Valid (bs : Nat) (m : Map β) : Prop where
  /-- The offset is below the block size. -/
  offset_lt : m.offset < bs
  /-- A file without blocks has no offset. -/
  offset_nil : m.blocks = [] → m.offset = 0

theorem pos_getBpos (p : Nat) : (getBpos bs p).pos bs = p := by
  rw [BlockPos.pos, getBpos, Nat.mul_comm]
  exact Nat.div_add_mod p bs

variable {bpos : BlockPos}

theorem eq_getBpos (hboff : bpos.boff < bs) :
    bpos = getBpos bs (bpos.pos bs) := by
  obtain ⟨bno, boff⟩ := bpos
  have hpos : 0 < bs := Nat.zero_lt_of_lt hboff
  simp only [getBpos, BlockPos.pos, BlockPos.mk.injEq]
  constructor
  · rw [Nat.add_comm, Nat.add_mul_div_right _ _ hpos, Nat.div_eq_of_lt hboff, Nat.zero_add]
  · rw [Nat.add_comm, Nat.add_mul_mod_self_right, Nat.mod_eq_of_lt hboff]

theorem getBpos_boff_lt (hbs : 0 < bs) (p : Nat) : (getBpos bs p).boff < bs :=
  Nat.mod_lt _ hbs

/-- A transfer inside of a block advances the position by its size. -/
theorem advance_pos (bpos : BlockPos) (size : Nat) :
    (bpos.advance bs size).pos bs = bpos.pos bs + size := by
  unfold BlockPos.advance
  split
  next hend =>
    simp only [BlockPos.pos, Nat.succ_mul]
    omega
  next =>
    simp only [BlockPos.pos]
    omega

theorem advance_boff_lt {size : Nat} (hboff : bpos.boff < bs)
    (hsize : bpos.boff + size ≤ bs) : (bpos.advance bs size).boff < bs := by
  unfold BlockPos.advance
  split
  next hend =>
    show bpos.boff + size - bs < bs
    omega
  next hin => exact Nat.lt_of_not_ge hin

variable {m : Map β}

theorem bytes_nil (h : m.blocks.length = 0) : m.bytes bs = 0 := by
  simp [Map.bytes, BlockSize.bytes, Map.size, h]

theorem bytes_full (h : m.offset = 0) : m.bytes bs = m.blocks.length * bs := by
  simp only [Map.bytes, BlockSize.bytes, Map.size, h, if_true]
  split
  next hzero => rw [hzero, Nat.zero_mul]
  next hne =>
    rw [← Nat.succ_mul, Nat.succ_eq_add_one, Nat.sub_add_cancel (Nat.pos_of_ne_zero hne)]

theorem bytes_partly (h : m.offset ≠ 0) (hne : m.blocks.length ≠ 0) :
    m.bytes bs = (m.blocks.length - 1) * bs + m.offset := by
  simp only [Map.bytes, BlockSize.bytes, Map.size, h, hne, if_false]

theorem pred_mul_add (bs : Nat) {count : Nat} (h : count ≠ 0) :
    (count - 1) * bs + bs = count * bs := by
  rw [← Nat.succ_mul, Nat.succ_eq_add_one, Nat.sub_add_cancel (Nat.pos_of_ne_zero h)]

/-- A file does not reach past its blocks. -/
theorem bytes_le (hm : m.Valid bs) : m.bytes bs ≤ m.blocks.length * bs := by
  by_cases hzero : m.blocks.length = 0
  · rw [bytes_nil hzero]
    exact Nat.zero_le _
  · by_cases hoffset : m.offset = 0
    · rw [bytes_full hoffset]
    · rw [bytes_partly hoffset hzero, ← pred_mul_add bs hzero]
      have := hm.offset_lt
      omega

theorem lt_bytes (hbs : 0 < bs) (hne : m.blocks.length ≠ 0) :
    (m.blocks.length - 1) * bs < m.bytes bs := by
  by_cases hoffset : m.offset = 0
  · rw [bytes_full hoffset, ← pred_mul_add bs hne]
    omega
  · rw [bytes_partly hoffset hne]
    omega

theorem find_eq (m : Map β) (bpos : BlockPos) :
    m.find bpos = if bpos.bno < m.blocks.length then some bpos.bno else none := by
  unfold Map.find BlockPos.isBlockPastEnd
  by_cases h : bpos.bno < m.blocks.length
  · have hcount : ¬ m.blocks.length = 0 := by omega
    simp [Map.size, h, Nat.not_le.mpr h, hcount]
  · simp [Map.size, h, Nat.le_of_not_lt h]

theorem succ_mul_le (bs : Nat) {q count : Nat} (h : q < count) : q * bs + bs ≤ count * bs := by
  rw [← Nat.succ_mul]
  exact Nat.mul_le_mul_right bs h

/-- A position that is not past the end of the file is in one of its blocks, or at the end
of a file with a full last block. -/
theorem bno_le (hm : m.Valid bs) (hboff : bpos.boff < bs) (hle : bpos.pos bs ≤ m.bytes bs) :
    bpos.bno < m.blocks.length ∨
      (bpos.bno = m.blocks.length ∧ bpos.boff = 0 ∧ m.bytes bs = m.blocks.length * bs) := by
  have hbytes := bytes_le hm
  rcases Nat.lt_trichotomy bpos.bno m.blocks.length with hlt | heq | hgt
  · exact Or.inl hlt
  · right
    simp only [BlockPos.pos, heq] at hle
    exact ⟨heq, by omega, by omega⟩
  · have := succ_mul_le bs hgt
    simp only [BlockPos.pos] at hle
    omega

end Rtems.Rfs.File
