import Rtems.Models.Fat.Volume
import Mathlib.Data.UInt

/-!
# Transfers to and from the disk

The disk is its bytes. Reads go sector by sector, fills block by block, each through
the buffer of one block; an access to a block behind the end of the device is an I/O error. The
contents of a buffer are those of the disk, so the buffer is not represented.
-/

namespace Rtems.Fat

/-- The bytes of the device. -/
abbrev Disk := Nat → UInt8

variable (vol : Vol)

/-- `fat_buf_access`: the address of the buffer of a sector on the disk. -/
def bufAccess (sec : Nat) : Option Nat :=
  let blk := vol.sectorNumToBlockNum sec
  if blk < vol.devBlocks then
    some (blk * vol.bytesPerBlock + (sec - vol.blockNumToSectorNum blk) * vol.bps)
  else none

/-- `_fat_block_read`, with a bound on the number of passes. -/
def blockRead (d : Disk) : Nat → Nat → Nat → Nat → Option (List UInt8)
  | _, _, _, 0 => some []
  | 0, _, _, _ + 1 => none
  | fuel + 1, sec, ofs, count + 1 =>
    (bufAccess vol sec).bind fun addr =>
      let c := min (count + 1) (vol.bps - ofs)
      (blockRead d fuel (sec + 1) 0 (count + 1 - c)).map (segment d (addr + ofs) c ++ ·)

/-- `fat_block_write` and `fat_block_set`, which differ in the source of the bytes. -/
def blockPut (d : Disk) (blk ofs count : Nat) (data : Nat → UInt8) : Option Disk :=
  (bufAccess vol (vol.blockNumToSectorNum blk)).map fun addr => patch d (addr + ofs) data count

/-- The loop of `fat_cluster_set`, for any bytes, with a bound on the number of passes. -/
def clusterPutLoop : Nat → Disk → Nat → Nat → Nat → (Nat → UInt8) → Option Disk
  | _, d, _, _, 0, _ => some d
  | 0, _, _, _, _ + 1, _ => none
  | fuel + 1, d, blk, ofs, count + 1, data =>
    let c := min (count + 1) (vol.bytesPerBlock - ofs)
    (blockPut vol d blk ofs c data).bind fun d =>
      clusterPutLoop fuel d ((blk + 1) % word) 0 (count + 1 - c) fun j => data (c + j)

/-- The body of `fat_cluster_set`, for any bytes: the disk and the number of bytes. -/
def clusterPut (d : Disk) (cln offset count : Nat) (data : Nat → UInt8) : Option (Disk × Nat) :=
  let bytes := min count (vol.bpc - offset)
  let blocksInOffset := offset / vol.bytesPerBlock
  let blk := (vol.clusterNumToBlockNum cln + blocksInOffset) % word
  (clusterPutLoop vol bytes d blk (offset - blocksInOffset * vol.bytesPerBlock) bytes data).map
    fun d => (d, bytes)

/-- `fat_cluster_set`. -/
def clusterSet (d : Disk) (cln offset count : Nat) (pattern : UInt8) : Option (Disk × Nat) :=
  clusterPut vol d cln offset count fun _ => pattern

variable {vol}

/-- The buffer of a sector of the volume is at the address of the sector. -/
theorem bufAccess_eq {sec : Nat} (h : sec < vol.endSec) :
    bufAccess vol sec = some (sec * vol.bps) := by
  have hbps := vol.bps_pos
  obtain ⟨blk, hblk⟩ := @exists_eq _ (sec / vol.spb)
  have hdiv : vol.sectorNumToBlockNum sec = blk := hblk.symm
  have hsplit : blk * vol.spb + sec % vol.spb = sec := by
    rw [hblk, Nat.mul_comm]
    exact Nat.div_add_mod sec vol.spb
  have hlt := vol.endSec_lt
  have hnum : vol.blockNumToSectorNum blk = blk * vol.spb := Nat.mod_eq_of_lt (by
    show blk * vol.spb < word
    omega)
  have hdev : blk < vol.devBlocks := by
    have hend := vol.endSec_le_dev
    rw [← vol.spb_mul_bps, ← Nat.mul_assoc] at hend
    have hle : vol.endSec ≤ vol.devBlocks * vol.spb := Nat.le_of_mul_le_mul_right hend hbps
    have hlt' : blk * vol.spb < vol.devBlocks * vol.spb := by omega
    exact Nat.lt_of_mul_lt_mul_right hlt'
  simp only [bufAccess, hdiv, if_pos hdev, hnum]
  rw [← vol.spb_mul_bps, ← Nat.mul_assoc, ← Nat.add_mul, Nat.add_sub_cancel' (by omega)]

/-- A read inside of the volume gives the bytes of the disk. -/
theorem blockRead_eq (d : Disk) {sec ofs count fuel : Nat} (hofs : ofs < vol.bps)
    (hfits : sec * vol.bps + ofs + count ≤ vol.endSec * vol.bps) (hfuel : count ≤ fuel) :
    blockRead vol d fuel sec ofs count = some (segment d (sec * vol.bps + ofs) count) := by
  induction fuel generalizing sec ofs count with
  | zero =>
    obtain rfl : count = 0 := Nat.le_zero.mp hfuel
    rfl
  | succ fuel ih =>
    cases count with
    | zero => rfl
    | succ count =>
      have hbps := vol.bps_pos
      have hsec : sec < vol.endSec := by
        have hlt : sec * vol.bps < vol.endSec * vol.bps := by omega
        exact Nat.lt_of_mul_lt_mul_right hlt
      obtain ⟨c, hc⟩ := @exists_eq _ (min (count + 1) (vol.bps - ofs))
      have hrest : blockRead vol d fuel (sec + 1) 0 (count + 1 - c) =
          some (segment d ((sec + 1) * vol.bps + 0) (count + 1 - c)) := by
        by_cases hlast : count + 1 - c = 0
        · rw [hlast]
          cases fuel <;> rfl
        · apply ih hbps _ (by omega)
          rw [Nat.succ_mul]
          omega
      simp only [blockRead, bufAccess_eq hsec, Option.bind_some, ← hc, hrest, Option.map_some]
      have hjoin := segment_append d (sec * vol.bps + ofs) c (count + 1 - c)
      rw [show c + (count + 1 - c) = count + 1 by omega] at hjoin
      rw [← hjoin]
      by_cases hlast : count + 1 - c = 0
      · simp [hlast, segment]
      · have haddr : (sec + 1) * vol.bps + 0 = sec * vol.bps + ofs + c := by
          rw [Nat.succ_mul]
          omega
        rw [haddr]

/-- The loop of a fill inside of the volume patches the disk. -/
theorem clusterPutLoop_eq (d : Disk) {blk ofs count fuel : Nat} {data : Nat → UInt8}
    (hofs : ofs < vol.bytesPerBlock)
    (hfits : blk * vol.bytesPerBlock + ofs + count ≤ vol.endSec * vol.bps) (hfuel : count ≤ fuel) :
    clusterPutLoop vol fuel d blk ofs count data =
      some (patch d (blk * vol.bytesPerBlock + ofs) data count) := by
  induction fuel generalizing d blk ofs count data with
  | zero =>
    obtain rfl : count = 0 := Nat.le_zero.mp hfuel
    rw [patch_zero]
    rfl
  | succ fuel ih =>
    cases count with
    | zero =>
      rw [patch_zero]
      rfl
    | succ count =>
      have hbpb : 0 < vol.bytesPerBlock := Nat.two_pow_pos _
      have hlt := vol.endSec_lt
      have hsec : blk * vol.spb < vol.endSec := by
        have hlt : blk * vol.spb * vol.bps < vol.endSec * vol.bps := by
          rw [Nat.mul_assoc, vol.spb_mul_bps]
          omega
        exact Nat.lt_of_mul_lt_mul_right hlt
      have hnum : vol.blockNumToSectorNum blk = blk * vol.spb := Nat.mod_eq_of_lt (by
        show blk * vol.spb < word
        omega)
      have haddr : blk * vol.spb * vol.bps = blk * vol.bytesPerBlock := by
        rw [Nat.mul_assoc, vol.spb_mul_bps]
      obtain ⟨c, hc⟩ := @exists_eq _ (min (count + 1) (vol.bytesPerBlock - ofs))
      have hput : blockPut vol d blk ofs c data =
          some (patch d (blk * vol.bytesPerBlock + ofs) data c) := by
        rw [blockPut, hnum, bufAccess_eq hsec, Option.map_some, haddr]
      have hjoin := patch_patch d (blk * vol.bytesPerBlock + ofs) data c (count + 1 - c)
      rw [show c + (count + 1 - c) = count + 1 by omega] at hjoin
      simp only [clusterPutLoop, ← hc, hput, Option.bind_some]
      by_cases hlast : count + 1 - c = 0
      · rw [← hjoin, hlast, patch_zero]
        cases fuel <;> rfl
      · have hnext : (blk + 1) % word = blk + 1 := by
          apply Nat.mod_eq_of_lt
          have hspb := vol.spb_pos
          have hle : blk + 1 ≤ (blk + 1) * vol.spb := Nat.le_mul_of_pos_right _ hspb
          have hlt : (blk + 1) * vol.spb * vol.bps < vol.endSec * vol.bps := by
            rw [Nat.mul_assoc, vol.spb_mul_bps, Nat.succ_mul]
            omega
          have := Nat.lt_of_mul_lt_mul_right hlt
          omega
        have haddr' : (blk + 1) * vol.bytesPerBlock + 0 = blk * vol.bytesPerBlock + ofs + c := by
          rw [Nat.succ_mul]
          omega
        rw [hnext, ih _ hbpb (by rw [haddr']; omega) (by omega), haddr', hjoin]

/-- A fill inside of a data cluster. -/
theorem clusterPut_eq (d : Disk) {cln offset count : Nat} {data : Nat → UInt8}
    (hcln : vol.IsData cln) (hoffset : offset < vol.bpc) :
    clusterPut vol d cln offset count data =
      some (patch d (vol.clusterAddr cln + offset) data (min count (vol.bpc - offset)),
        min count (vol.bpc - offset)) := by
  have hbpb : 0 < vol.bytesPerBlock := Nat.two_pow_pos _
  obtain ⟨k, hk⟩ := @exists_eq _ (offset / vol.bytesPerBlock)
  have hmod : offset - k * vol.bytesPerBlock < vol.bytesPerBlock := by
    have hdiv := Nat.div_add_mod offset vol.bytesPerBlock
    have hlt := Nat.mod_lt offset hbpb
    rw [← hk, Nat.mul_comm] at hdiv
    omega
  have hle : k * vol.bytesPerBlock ≤ offset := by
    rw [hk]
    exact Nat.div_mul_le_self _ _
  have hmul := vol.clusterNumToBlockNum_mul hcln
  have hend := vol.clusterAddr_add_le hcln
  have haddr : (vol.clusterNumToBlockNum cln + k) * vol.bytesPerBlock +
      (offset - k * vol.bytesPerBlock) = vol.clusterAddr cln + offset := by
    rw [Nat.add_mul, hmul]
    omega
  have hblk : (vol.clusterNumToBlockNum cln + k) % word = vol.clusterNumToBlockNum cln + k := by
    apply Nat.mod_eq_of_lt
    have hlt : (vol.clusterNumToBlockNum cln + k) * vol.bytesPerBlock < vol.endSec * vol.bps := by
      omega
    have hle' : (vol.clusterNumToBlockNum cln + k) * vol.bps ≤
        (vol.clusterNumToBlockNum cln + k) * vol.bytesPerBlock := by
      apply Nat.mul_le_mul_left
      rw [← vol.spb_mul_bps]
      exact Nat.le_mul_of_pos_left _ vol.spb_pos
    have hlt' := Nat.lt_of_mul_lt_mul_right (Nat.lt_of_le_of_lt hle' hlt)
    have := vol.endSec_lt
    omega
  simp only [clusterPut, ← hk, hblk]
  rw [clusterPutLoop_eq d hmod (by rw [haddr]; omega) (Nat.le_refl _), haddr]
  rfl

end Rtems.Fat
