import Mathlib.Algebra.Order.Ring.Nat
import Rtems.Core.Patch

/-!
# The geometry of a FAT volume

The volume starts with reserved sectors, followed by the tables, the fixed root directory of a
FAT12 or FAT16 volume and the data clusters. The block of the buffer layer is a sector, or a
cluster if the parts of the volume are aligned to clusters. Sector, block and cluster numbers
are 32 bits wide.
-/

namespace Rtems.Fat

/-- The type of a volume. -/
inductive FatType
  | fat12
  | fat16
  | fat32
  deriving DecidableEq, Repr

/-- `FAT_RSRVD_CLN`: the number of the first data cluster. -/
def rsrvdCln : Nat := 2

/-- The values of a 32-bit number. -/
def word : Nat := 2 ^ 32

/-- The type of a volume with a number of data clusters. -/
def typeOf (dataCls : Nat) : FatType :=
  if dataCls < 4085 then .fat12
  else if dataCls < 65525 then .fat16
  else .fat32

/-- `vol->mask`. -/
def FatType.mask : FatType → Nat
  | .fat12 => 0xfff
  | .fat16 => 0xffff
  | .fat32 => 0xfffffff

/-- `vol->eoc_val`. -/
def FatType.eocVal : FatType → Nat
  | .fat12 => 0xff8
  | .fat16 => 0xfff8
  | .fat32 => 0xffffff8

/-- `FAT_FAT_OFFSET`: the offset of the entry of a cluster in a table. -/
def FatType.offset : FatType → Nat → Nat
  | .fat12, cln => cln + cln / 2
  | .fat16, cln => cln * 2
  | .fat32, cln => cln * 4

/-- The bytes that an entry touches. -/
def FatType.width : FatType → Nat
  | .fat12 => 2
  | .fat16 => 2
  | .fat32 => 4

/-- The geometry of a well-formed volume. `fat_init_volume_info` computes the numbers and checks
the sizes of sectors and clusters and the number of clusters. It does not check the last
conditions, which are assumptions about the boot sector and the device: `fat_fits`, `afat_lt`,
`secs_lt` and `dev_fits`. -/
structure Vol where
  /-- `sec_log2`. -/
  secLog2 : Nat
  /-- `spc_log2`. -/
  spcLog2 : Nat
  /-- `bytes_per_block_log2`. -/
  blkLog2 : Nat
  /-- `fat_loc`, the number of reserved sectors. -/
  fatLoc : Nat
  /-- `fats`. -/
  fats : Nat
  /-- `fat_length`. -/
  fatLength : Nat
  /-- `rdir_secs`. -/
  rdirSecs : Nat
  /-- `data_cls`. -/
  dataCls : Nat
  /-- `mirror`: the tables are not copied. -/
  mirror : Bool
  /-- `afat`, the number of the active table. -/
  afat : Nat
  /-- The number of blocks of the device. -/
  devBlocks : Nat
  /-- A sector has 512 to 4096 bytes. -/
  secLog2_mem : 9 ≤ secLog2 ∧ secLog2 ≤ 12
  /-- A cluster has at most 128 sectors. -/
  spcLog2_le : spcLog2 ≤ 7
  /-- The block size, with the alignment that blocks of a cluster require. -/
  block : blkLog2 = secLog2 ∨
    (blkLog2 = secLog2 + spcLog2 ∧
      (fatLoc + fats * fatLength + rdirSecs) % 2 ^ spcLog2 = 0 ∧
      (typeOf dataCls = .fat32 ∨ (fatLoc + fats * fatLength) % 2 ^ spcLog2 = 0))
  /-- The number of clusters that `fat_init_volume_info` accepts. -/
  dataCls_lt : dataCls < 0xfffffff - 1
  /-- Assumed: the tables have entries for all clusters. -/
  fat_fits : (typeOf dataCls).offset (dataCls + 1) + (typeOf dataCls).width ≤
    fatLength * 2 ^ secLog2
  /-- Assumed: the active table is one of the tables. -/
  afat_lt : afat < fats
  /-- It is the first one if the tables are copied. -/
  afat_eq : mirror = false → afat = 0
  /-- Assumed: the sectors of the volume have numbers. -/
  secs_lt : fatLoc + fats * fatLength + rdirSecs + dataCls * 2 ^ spcLog2 < word
  /-- Assumed: the volume fits the device. -/
  dev_fits : (fatLoc + fats * fatLength + rdirSecs + dataCls * 2 ^ spcLog2) * 2 ^ secLog2 ≤
    devBlocks * 2 ^ blkLog2

namespace Vol

variable (vol : Vol)

/-- `bps`. -/
def bps : Nat := 2 ^ vol.secLog2

/-- `spc`. -/
def spc : Nat := 2 ^ vol.spcLog2

/-- `bpc_log2`. -/
def bpcLog2 : Nat := vol.secLog2 + vol.spcLog2

/-- `bpc`. -/
def bpc : Nat := 2 ^ vol.bpcLog2

/-- `bytes_per_block`. -/
def bytesPerBlock : Nat := 2 ^ vol.blkLog2

/-- `rdir_loc`. -/
def rdirLoc : Nat := vol.fatLoc + vol.fats * vol.fatLength

/-- `data_fsec`. -/
def dataFsec : Nat := vol.rdirLoc + vol.rdirSecs

/-- `type`. -/
def type : FatType := typeOf vol.dataCls

/-- `afat_loc`. -/
def afatLoc : Nat := vol.fatLoc + vol.fatLength * vol.afat

/-- `fat_sector_num_to_block_num`. -/
def sectorNumToBlockNum (sec : Nat) : Nat :=
  sec / 2 ^ (vol.blkLog2 - vol.secLog2)

/-- `fat_block_num_to_sector_num`. -/
def blockNumToSectorNum (blk : Nat) : Nat :=
  blk * 2 ^ (vol.blkLog2 - vol.secLog2) % word

/-- `fat_cluster_num_to_sector_num`. -/
def clusterNumToSectorNum (cln : Nat) : Nat :=
  if cln = 0 ∧ vol.type ≠ .fat32 then vol.rdirLoc
  else ((cln + (word - rsrvdCln)) % word * vol.spc + vol.dataFsec) % word

/-- `fat_cluster_num_to_block_num`. -/
def clusterNumToBlockNum (cln : Nat) : Nat :=
  if cln = 0 ∧ vol.type ≠ .fat32 then vol.sectorNumToBlockNum vol.rdirLoc
  else ((cln + (word - rsrvdCln)) % word * 2 ^ (vol.bpcLog2 - vol.blkLog2) +
    vol.sectorNumToBlockNum vol.dataFsec) % word

/-- The cluster number is one of a data cluster. -/
def IsData (cln : Nat) : Prop :=
  rsrvdCln ≤ cln ∧ cln < vol.dataCls + rsrvdCln

instance (cln : Nat) : Decidable (vol.IsData cln) :=
  inferInstanceAs (Decidable (_ ∧ _))

/-- The address of the first byte of a data cluster. -/
def clusterAddr (cln : Nat) : Nat :=
  vol.dataFsec * vol.bps + (cln - rsrvdCln) * vol.bpc

theorem bps_pos : 0 < vol.bps := Nat.two_pow_pos _

theorem bpc_pos : 0 < vol.bpc := Nat.two_pow_pos _

theorem spc_mul_bps : vol.spc * vol.bps = vol.bpc := by
  rw [bpc, bpcLog2, Nat.add_comm, Nat.pow_add]
  rfl

/-- The sectors of a block. -/
def spb : Nat := 2 ^ (vol.blkLog2 - vol.secLog2)

theorem spb_pos : 0 < vol.spb := Nat.two_pow_pos _

theorem blkLog2_mem : vol.secLog2 ≤ vol.blkLog2 ∧ vol.blkLog2 ≤ vol.bpcLog2 := by
  rcases vol.block with h | ⟨h, -⟩
  · rw [h, bpcLog2]
    omega
  · rw [h, bpcLog2]
    omega

theorem spb_mul_bps : vol.spb * vol.bps = vol.bytesPerBlock := by
  rw [spb, bps, ← Nat.pow_add, Nat.sub_add_cancel vol.blkLog2_mem.1]
  rfl

theorem blocks_mul : 2 ^ (vol.bpcLog2 - vol.blkLog2) * vol.bytesPerBlock = vol.bpc := by
  rw [bytesPerBlock, ← Nat.pow_add, Nat.sub_add_cancel vol.blkLog2_mem.2]
  rfl

theorem blocks_mul_spb : 2 ^ (vol.bpcLog2 - vol.blkLog2) * vol.spb = vol.spc := by
  apply Nat.eq_of_mul_eq_mul_right vol.bps_pos
  rw [Nat.mul_assoc, spb_mul_bps, blocks_mul, spc_mul_bps]

theorem dataFsec_mod : vol.dataFsec % vol.spb = 0 := by
  rcases vol.block with h | ⟨h, hdata, -⟩
  · rw [spb, h, Nat.sub_self, Nat.pow_zero, Nat.mod_one]
  · rw [spb, h, Nat.add_sub_cancel_left]
    exact hdata

theorem sectorNumToBlockNum_mul {sec : Nat} (h : sec % vol.spb = 0) :
    vol.sectorNumToBlockNum sec * vol.bytesPerBlock = sec * vol.bps := by
  have hdiv : sec / vol.spb * vol.spb = sec := Nat.div_mul_cancel (Nat.dvd_of_mod_eq_zero h)
  rw [← spb_mul_bps, ← Nat.mul_assoc]
  exact congrArg (· * vol.bps) hdiv

theorem sub_rsrvdCln {cln : Nat} (h : vol.IsData cln) :
    (cln + (word - rsrvdCln)) % word = cln - rsrvdCln := by
  have hcls := vol.dataCls_lt
  obtain ⟨hge, hlt⟩ := h
  have hword : word = 4294967296 := rfl
  simp only [rsrvdCln] at hge hlt ⊢
  rw [show cln + (word - 2) = cln - 2 + word by omega, Nat.add_mod_right, Nat.mod_eq_of_lt (by omega)]

theorem sectors_le {cln : Nat} (h : vol.IsData cln) :
    vol.dataFsec + (cln - rsrvdCln) * vol.spc + vol.spc ≤ vol.dataFsec + vol.dataCls * vol.spc := by
  obtain ⟨hge, hlt⟩ := h
  have hmul : (cln - rsrvdCln + 1) * vol.spc ≤ vol.dataCls * vol.spc :=
    Nat.mul_le_mul_right _ (by omega)
  rw [Nat.succ_mul] at hmul
  omega

/-- The end of the volume. -/
def endSec : Nat := vol.dataFsec + vol.dataCls * vol.spc

theorem endSec_lt : vol.endSec < word := vol.secs_lt

theorem endSec_le_dev : vol.endSec * vol.bps ≤ vol.devBlocks * vol.bytesPerBlock := vol.dev_fits

section

variable {cln : Nat} (h : vol.IsData cln)
include h

/-- The first sector of a data cluster. -/
theorem clusterNumToSectorNum_eq :
    vol.clusterNumToSectorNum cln = vol.dataFsec + (cln - rsrvdCln) * vol.spc := by
  have hne : ¬ (cln = 0 ∧ vol.type ≠ .fat32) := by
    rintro ⟨rfl, -⟩
    exact absurd h.1 (by decide)
  have hle := vol.sectors_le h
  have hlt := vol.endSec_lt
  unfold endSec at hlt
  rw [clusterNumToSectorNum, if_neg hne, vol.sub_rsrvdCln h, Nat.mod_eq_of_lt (by omega),
    Nat.add_comm]

theorem clusterNumToSectorNum_mul :
    vol.clusterNumToSectorNum cln * vol.bps = vol.clusterAddr cln := by
  rw [vol.clusterNumToSectorNum_eq h, Nat.add_mul, Nat.mul_assoc, spc_mul_bps]
  rfl

/-- The blocks of a data cluster are at its address. -/
theorem clusterNumToBlockNum_mul :
    vol.clusterNumToBlockNum cln * vol.bytesPerBlock = vol.clusterAddr cln := by
  have hne : ¬ (cln = 0 ∧ vol.type ≠ .fat32) := by
    rintro ⟨rfl, -⟩
    exact absurd h.1 (by decide)
  have hlt : (cln - rsrvdCln) * 2 ^ (vol.bpcLog2 - vol.blkLog2) +
      vol.sectorNumToBlockNum vol.dataFsec < word := by
    have hsec : (cln - rsrvdCln) * 2 ^ (vol.bpcLog2 - vol.blkLog2) ≤
        (cln - rsrvdCln) * vol.spc := by
      apply Nat.mul_le_mul_left
      rw [← blocks_mul_spb]
      exact Nat.le_mul_of_pos_right _ vol.spb_pos
    have hdata : vol.sectorNumToBlockNum vol.dataFsec ≤ vol.dataFsec := Nat.div_le_self _ _
    have hle := vol.sectors_le h
    have hend := vol.endSec_lt
    unfold endSec at hend
    omega
  rw [clusterNumToBlockNum, if_neg hne, vol.sub_rsrvdCln h, Nat.mod_eq_of_lt hlt, Nat.add_mul,
    Nat.mul_assoc, blocks_mul, vol.sectorNumToBlockNum_mul vol.dataFsec_mod, Nat.add_comm]
  rfl

theorem clusterAddr_add_le :
    vol.clusterAddr cln + vol.bpc ≤ vol.endSec * vol.bps := by
  have hle := Nat.mul_le_mul_right vol.bps (vol.sectors_le h)
  rw [Nat.add_mul, Nat.add_mul, Nat.mul_assoc, spc_mul_bps] at hle
  exact hle

end

theorem le_clusterAddr (cln : Nat) : vol.dataFsec * vol.bps ≤ vol.clusterAddr cln :=
  Nat.le_add_right _ _

/-- Different data clusters do not overlap. -/
theorem clusterAddr_disjoint {c c' : Nat} (h : vol.IsData c) (h' : vol.IsData c') (hne : c ≠ c') :
    vol.clusterAddr c + vol.bpc ≤ vol.clusterAddr c' ∨
      vol.clusterAddr c' + vol.bpc ≤ vol.clusterAddr c := by
  obtain ⟨hge, -⟩ := h
  obtain ⟨hge', -⟩ := h'
  unfold clusterAddr
  rcases Nat.lt_or_gt_of_ne hne with hlt | hgt
  · left
    have hmul : (c - rsrvdCln + 1) * vol.bpc ≤ (c' - rsrvdCln) * vol.bpc :=
      Nat.mul_le_mul_right _ (by omega)
    rw [Nat.succ_mul] at hmul
    omega
  · right
    have hmul : (c' - rsrvdCln + 1) * vol.bpc ≤ (c - rsrvdCln) * vol.bpc :=
      Nat.mul_le_mul_right _ (by omega)
    rw [Nat.succ_mul] at hmul
    omega

end Vol

end Rtems.Fat
