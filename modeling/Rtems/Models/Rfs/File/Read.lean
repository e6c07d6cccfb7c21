import Rtems.Models.Rfs.File.Write

/-!
# Reads

A read goes from its position to the end of the data asked for or of the file.
-/

namespace Rtems.Rfs.File

variable {β : Type} {bs : Nat} {bpos : BlockPos} {m : Map β}

theorem isLastBlock_iff (hlt : bpos.bno < m.blocks.length) :
    bpos.isLastBlock m.size = true ↔ bpos.bno = m.blocks.length - 1 := by
  have hdef : bpos.isLastBlock m.size = true ↔ (bpos.bno = 0 ∧ m.blocks.length = 0) ∨
      (m.blocks.length ≠ 0 ∧ bpos.bno = m.blocks.length - 1) := decide_eq_true_iff
  rw [hdef]
  omega

section

variable (junk : Nat → Nat → β) (hm : m.Valid bs) (hboff : bpos.boff < bs)
  (hle : bpos.pos bs ≤ m.bytes bs)
include junk hm hboff hle

/-- The start of a read in a block of the file: what is available of the block ends with the
block or the file, and at the position only if the file does. -/
theorem ioStartRead_spec :
    ∃ started, ioStartRead bs m bpos junk = some started ∧
      bpos.boff + started.available ≤ bs ∧ bpos.pos bs + started.available ≤ m.bytes bs ∧
      (bpos.boff + started.available = bs ∨ bpos.pos bs + started.available = m.bytes bs) ∧
      (started.available ≠ 0 → m.blocks[bpos.bno]? = some started.buffer) := by
  have hbs : 0 < bs := Nat.zero_lt_of_lt hboff
  unfold ioStartRead
  rw [find_eq]
  rcases bno_le hm hboff hle with hlt | ⟨heq, hzero, hfull⟩
  · have hne : m.blocks.length ≠ 0 := by omega
    have hlast := pred_mul_add bs hne
    rw [if_pos hlt]
    simp only [isLastBlock_iff hlt]
    have hbuffer : m.blocks[bpos.bno]? = some (m.request bpos.bno true junk) := by
      simp [Map.request, hlt]
    by_cases hpartly : bpos.bno = m.blocks.length - 1 ∧ m.offset ≠ 0
    · have hbytes : m.bytes bs = (m.blocks.length - 1) * bs + m.offset :=
        bytes_partly hpartly.2 hne
      have hposEq : bpos.pos bs = (m.blocks.length - 1) * bs + bpos.boff := by
        rw [BlockPos.pos, hpartly.1]
      have hoffset := hm.offset_lt
      rw [if_pos hpartly, if_pos (by omega)]
      refine ⟨_, rfl, ?_, ?_, Or.inr ?_, fun _ => hbuffer⟩
      · show bpos.boff + (m.offset - bpos.boff) ≤ bs
        omega
      · show bpos.pos bs + (m.offset - bpos.boff) ≤ m.bytes bs
        omega
      · show bpos.pos bs + (m.offset - bpos.boff) = m.bytes bs
        omega
    · rw [if_neg hpartly, if_pos (Nat.le_of_lt hboff)]
      refine ⟨_, rfl, ?_, ?_, Or.inl ?_, fun _ => hbuffer⟩
      · show bpos.boff + (bs - bpos.boff) ≤ bs
        omega
      · show bpos.pos bs + (bs - bpos.boff) ≤ m.bytes bs
        have hblock : bpos.pos bs + (bs - bpos.boff) = bpos.bno * bs + bs := by
          rw [BlockPos.pos]
          omega
        rw [hblock]
        by_cases hfull : m.offset = 0
        · rw [bytes_full hfull]
          exact succ_mul_le bs hlt
        · have hbefore : bpos.bno < m.blocks.length - 1 := by omega
          have := succ_mul_le bs hbefore
          have : (m.blocks.length - 1) * bs < m.bytes bs := lt_bytes hbs hne
          omega
      · show bpos.boff + (bs - bpos.boff) = bs
        omega
  · rw [if_neg (by omega)]
    refine ⟨_, rfl, by simp [Nat.le_of_lt hboff], hle, Or.inr ?_, fun h => absurd rfl h⟩
    show bpos.pos bs + 0 = m.bytes bs
    rw [BlockPos.pos, heq, hzero, hfull]
    rfl

/-- The loop of a read: it returns for every bound on its passes from the number of bytes on,
with the bytes from the position to the end of the data asked for or of the file. -/
theorem readLoop_spec {count : Nat} {fuel : Nat}
    (hfuel : count ≤ fuel) :
    ∃ bpos' bytes, readLoop bs junk m fuel bpos count = some (bpos', bytes) ∧
      bpos'.boff < bs ∧ bpos'.pos bs = bpos.pos bs + bytes.length ∧
      bytes.length = min count (m.bytes bs - bpos.pos bs) ∧
      bytes.map some = (List.range bytes.length).map fun j => m.byteAt bs (bpos.pos bs + j) := by
  induction fuel generalizing count bpos with
  | zero =>
    obtain rfl : count = 0 := Nat.le_zero.mp hfuel
    exact ⟨bpos, [], rfl, hboff, rfl, by simp, rfl⟩
  | succ fuel ih =>
    cases count with
    | zero => exact ⟨bpos, [], rfl, hboff, rfl, by simp, rfl⟩
    | succ count =>
      obtain ⟨started, hstart, hfit, hreach, hstop, hbuffer⟩ :=
        ioStartRead_spec junk hm hboff hle
      by_cases hnone : started.available = 0
      · refine ⟨bpos, [], ?_, hboff, rfl, ?_, rfl⟩
        · simp only [readLoop, hstart, Option.bind_some, if_pos hnone]
        · have : bpos.pos bs = m.bytes bs := by omega
          rw [this, Nat.sub_self, Nat.min_zero]
          rfl
      · obtain ⟨size, hsize⟩ := @exists_eq _
          (if started.available > count + 1 then count + 1 else started.available)
        have hpos : 0 < size ∧ size ≤ count + 1 ∧ size ≤ started.available ∧
            (size = count + 1 ∨ size = started.available) := by
          rw [hsize]
          split <;> omega
        have hadvance : (bpos.advance bs size).pos bs = bpos.pos bs + size := advance_pos bpos size
        have hinside : (bpos.advance bs size).boff < bs := advance_boff_lt hboff (by omega)
        have hleft : count + 1 - size ≤ fuel := by omega
        obtain ⟨bpos', rest, hloop, hboff', hpos', hlength, hbytes⟩ :=
          ih hinside (by rw [hadvance]; omega) hleft
        rw [hadvance] at hpos' hlength hbytes
        refine ⟨bpos', ((List.range size).map fun j => started.buffer (bpos.boff + j)) ++ rest, ?_,
          hboff', ?_, ?_, ?_⟩
        · simp only [readLoop, hstart, Option.bind_some, if_neg hnone, ← hsize, hloop,
            Option.map_some]
        · rw [hpos', List.length_append, List.length_map, List.length_range]
          omega
        · rw [List.length_append, List.length_map, List.length_range, hlength]
          omega
        · rw [List.map_append, List.length_append, List.length_map, List.length_range,
            List.range_add, List.map_append, hbytes, List.map_map, List.map_map]
          congr 1
          · apply List.map_congr_left
            intro j hj
            have hj := List.mem_range.mp hj
            rw [BlockPos.pos, Nat.add_assoc, byteAt_mul_add m (by omega), hbuffer hnone]
            rfl
          · apply List.map_congr_left
            intro j _
            show m.byteAt bs _ = m.byteAt bs _
            rw [Nat.add_assoc]

end

end Rtems.Rfs.File
