import Mathlib.Tactic.Ring

/-!
# The geometry of a disk device

A disk device has media blocks, and the user sees blocks of a size that may be changed. Block
numbers and sizes are 32-bit numbers. The device driver and the contents of the cache, which a
new block size purges, are not represented.
-/

namespace Rtems.BlockDevice

/-- The configuration of the cache that the initialization accepted. -/
structure Config where
  /-- `bdbuf_config.buffer_min`. -/
  bufferMin : Nat
  /-- `bdbuf_config.buffer_max`. -/
  bufferMax : Nat
  /-- The number of bits of `size_t`. -/
  sizeBits : Nat
  /-- The initialization divides by the minimum. -/
  bufferMin_pos : 0 < bufferMin
  /-- The initialization checks that the maximum is a multiple of the minimum. -/
  bufferMin_dvd : bufferMin ∣ bufferMax

/-- `rtems_disk_device`. -/
structure DiskDevice where
  /-- `start`. -/
  start : Nat
  /-- `size`. -/
  size : Nat
  /-- `media_block_size`. -/
  mediaBlockSize : Nat
  /-- `block_size`. -/
  blockSize : Nat
  /-- `block_count`. -/
  blockCount : Nat
  /-- `media_blocks_per_block`. -/
  mediaBlocksPerBlock : Nat
  /-- `block_to_media_block_shift`. -/
  blockToMediaBlockShift : Int
  /-- `bds_per_group`. -/
  bdsPerGroup : Nat
  /-- The media blocks have numbers: a logical device lies inside of its physical device. -/
  end_lt : start + size < 2 ^ 32

/-- What a call ends with. -/
inductive Outcome
  /-- `RTEMS_SUCCESSFUL` with the device. -/
  | successful (dd : DiskDevice)
  /-- `RTEMS_INVALID_NUMBER`; the device is unchanged. -/
  | invalidNumber
  /-- A division by zero. -/
  | dividesByZero
  /-- A shift by the number of bits of the type. -/
  | undefinedShift
  /-- A loop that does not end. -/
  | endless

/-- The loop of `rtems_bdbuf_bds_per_group`; the bound is the number of bits of `size_t`, after
that many passes the counter is zero for ever. -/
def bdsLoop (bits bufsPerSize : Nat) : Nat → Nat → Option Nat
  | 0, _ => none
  | fuel + 1, bdsPerSize =>
    if bdsPerSize < bufsPerSize then bdsLoop bits bufsPerSize fuel (bdsPerSize * 2 % 2 ^ bits)
    else some bdsPerSize

/-- `rtems_bdbuf_bds_per_group`. -/
def bdsPerGroup (config : Config) (size : Nat) : Option Nat :=
  if config.bufferMax < size then some 0
  else
    let bufsPerSize := (size - 1) / config.bufferMin + 1
    (bdsLoop config.sizeBits bufsPerSize (config.sizeBits + 1) 1).map fun bdsPerSize =>
      config.bufferMax / config.bufferMin / bdsPerSize

/-- The loop of `rtems_bdbuf_set_block_size`; the shift is undefined when the bound is used up. -/
def shiftLoop (mediaBlocksPerBlock : Nat) : Nat → Nat → Option Nat
  | 0, _ => none
  | fuel + 1, shift =>
    if 2 ^ shift < mediaBlocksPerBlock then shiftLoop mediaBlocksPerBlock fuel (shift + 1)
    else some shift

/-- `rtems_bdbuf_set_block_size`. -/
def setBlockSize (config : Config) (dd : DiskDevice) (blockSize : Nat) : Outcome :=
  if 0 < blockSize then
    match bdsPerGroup config blockSize with
    | none => .endless
    | some 0 => .invalidNumber
    | some bdsPerGroup =>
      if dd.mediaBlockSize = 0 then .dividesByZero
      else
        let mediaBlocksPerBlock := blockSize / dd.mediaBlockSize
        match shiftLoop mediaBlocksPerBlock 32 0 with
        | none => .undefinedShift
        | some shift =>
          let blockToMediaBlockShift : Int :=
            if dd.mediaBlockSize * 2 ^ shift % 2 ^ 32 ≠ blockSize then -1 else shift
          if mediaBlocksPerBlock = 0 then .dividesByZero
          else .successful { dd with
            blockSize
            blockCount := dd.size / mediaBlocksPerBlock
            mediaBlocksPerBlock
            blockToMediaBlockShift
            bdsPerGroup }
  else .invalidNumber

/-- `rtems_bdbuf_media_block`. -/
def mediaBlock (dd : DiskDevice) (block : Nat) : Nat :=
  if 0 ≤ dd.blockToMediaBlockShift then block * 2 ^ dd.blockToMediaBlockShift.toNat % 2 ^ 32
  else block * dd.blockSize % 2 ^ 64 / dd.mediaBlockSize % 2 ^ 32

/-- `rtems_bdbuf_get_media_block`. -/
def getMediaBlock (dd : DiskDevice) (block : Nat) : Option Nat :=
  if block < dd.blockCount then some ((mediaBlock dd block + dd.start) % 2 ^ 32) else none

/-- The media blocks that have a byte of the block that begins with a media block. -/
def Occupies (dd : DiskDevice) (first k : Nat) : Prop :=
  first ≤ k ∧ (k - first) * dd.mediaBlockSize < dd.blockSize

instance (dd : DiskDevice) (first k : Nat) : Decidable (Occupies dd first k) :=
  inferInstanceAs (Decidable (_ ∧ _))

/-- The call divides by no zero, and different blocks of an accepted size occupy different media
blocks of the device. -/
structure Consistent (config : Config) (dd : DiskDevice) (blockSize : Nat) : Prop where
  /-- There is no division by zero. -/
  not_dividesByZero : setBlockSize config dd blockSize ≠ .dividesByZero
  /-- A block lies inside of the device. -/
  inside : ∀ dd', setBlockSize config dd blockSize = .successful dd' →
    ∀ i first, getMediaBlock dd' i = some first →
      ∀ k, Occupies dd' first k → dd.start ≤ k ∧ k < dd.start + dd.size
  /-- Two blocks share no media block. -/
  disjoint : ∀ dd', setBlockSize config dd blockSize = .successful dd' →
    ∀ i j first first', getMediaBlock dd' i = some first → getMediaBlock dd' j = some first' →
      i ≠ j → ∀ k, ¬(Occupies dd' first k ∧ Occupies dd' first' k)

/-- The block sizes for which the geometry is consistent: those for which there is no group of
buffers, the multiples of the media block size, and those of which the device holds no block at
all or a single one with room for its last part. -/
def Compatible (config : Config) (dd : DiskDevice) (blockSize : Nat) : Prop :=
  (∀ n, bdsPerGroup config blockSize = some n → n = 0) ∨ dd.mediaBlockSize ∣ blockSize ∨
    dd.size ≠ blockSize / dd.mediaBlockSize ∧ dd.size < 2 * (blockSize / dd.mediaBlockSize)

variable {config : Config} {dd dd' : DiskDevice} {blockSize : Nat}

/-- The loop ends with the smallest shift that is large enough. -/
theorem shiftLoop_spec {n fuel shift s : Nat} (h : shiftLoop n fuel shift = some s)
    (hlow : 0 < n → 2 ^ shift < 2 * n) : n ≤ 2 ^ s ∧ (0 < n → 2 ^ s < 2 * n) := by
  induction fuel generalizing shift with
  | zero => cases h
  | succ fuel ih =>
    rw [shiftLoop] at h
    split at h
    · next hlt =>
      apply ih h
      intro _
      omega
    · next hge =>
      obtain rfl := Option.some.inj h
      exact ⟨not_lt.mp hge, hlow⟩

/-- The loop ends if the bound allows a shift that is large enough. -/
theorem exists_shiftLoop {n fuel shift : Nat} (h : n ≤ 2 ^ (shift + fuel)) :
    ∃ s, shiftLoop n (fuel + 1) shift = some s := by
  induction fuel generalizing shift with
  | zero => exact ⟨shift, if_neg (not_lt.mpr h)⟩
  | succ fuel ih =>
    rw [shiftLoop]
    split
    · exact ih (by rwa [Nat.add_assoc, Nat.add_comm 1])
    · exact ⟨shift, rfl⟩

/-- A successful call and what it stores. -/
structure Accepted (config : Config) (dd : DiskDevice) (blockSize : Nat) (dd' : DiskDevice)
    (shift : Nat) : Prop where
  pos : 0 < blockSize
  media_pos : 0 < dd.mediaBlockSize
  per_pos : 0 < blockSize / dd.mediaBlockSize
  /-- There is a group of buffers for the size. -/
  group : ∃ n, bdsPerGroup config blockSize = some n ∧ n ≠ 0
  /-- The shift that the loop finds. -/
  loop : shiftLoop (blockSize / dd.mediaBlockSize) 32 0 = some shift
  start_eq : dd'.start = dd.start
  media_eq : dd'.mediaBlockSize = dd.mediaBlockSize
  size_eq : dd'.blockSize = blockSize
  count_eq : dd'.blockCount = dd.size / (blockSize / dd.mediaBlockSize)
  /-- The shift is kept if it gives the block size. -/
  shift_eq : dd'.blockToMediaBlockShift =
    if dd.mediaBlockSize * 2 ^ shift % 2 ^ 32 ≠ blockSize then -1 else (shift : Int)

theorem exists_accepted (h : setBlockSize config dd blockSize = .successful dd') :
    ∃ shift, Accepted config dd blockSize dd' shift := by
  unfold setBlockSize at h
  split at h
  · next hpos =>
    split at h
    · cases h
    · cases h
    · next group hgroup hsome =>
      split at h
      · cases h
      · next hmedia =>
        simp only at h
        split at h
        · cases h
        · next shift hshift =>
          split at h
          · cases h
          · next hper =>
            obtain rfl := Outcome.successful.inj h
            exact ⟨shift, hpos, Nat.pos_of_ne_zero hmedia, Nat.pos_of_ne_zero hper,
              ⟨group, hsome, fun hzero => hgroup (hzero ▸ rfl)⟩, hshift, rfl, rfl, rfl, rfl, rfl⟩
  · cases h

/-- With a group of buffers and a shift only the division by zero is left as an error. -/
theorem setBlockSize_of_group {n shift : Nat} (hpos : 0 < blockSize)
    (hgroup : bdsPerGroup config blockSize = some n) (hn : n ≠ 0) (hm : 0 < dd.mediaBlockSize)
    (hshift : shiftLoop (blockSize / dd.mediaBlockSize) 32 0 = some shift) :
    if blockSize / dd.mediaBlockSize = 0 then
      setBlockSize config dd blockSize = .dividesByZero
    else ∃ dd', setBlockSize config dd blockSize = .successful dd' := by
  obtain ⟨k, rfl⟩ := Nat.exists_eq_succ_of_ne_zero hn
  unfold setBlockSize
  simp only [if_pos hpos, hgroup, if_neg hm.ne', hshift]
  split
  · rfl
  · exact ⟨_, rfl⟩

/-- A shift that is used multiplies by the number of media blocks of a block. -/
theorem shift_exact {m shift : Nat} (hm : 0 < m) (hdvd : m ∣ blockSize) (hpos : 0 < blockSize)
    (hlt : blockSize < 2 ^ 32) (hshift : shiftLoop (blockSize / m) 32 0 = some shift)
    (hsame : m * 2 ^ shift % 2 ^ 32 = blockSize) : 2 ^ shift = blockSize / m := by
  obtain ⟨k, rfl⟩ := hdvd
  rw [Nat.mul_div_cancel_left k hm] at hshift ⊢
  have hk : 0 < k := Nat.pos_of_mul_pos_left hpos
  obtain ⟨hge, hless⟩ := shiftLoop_spec hshift fun _ => by omega
  -- The product is less than twice the block size, so it was not reduced.
  have hbound : m * 2 ^ shift < 2 * (m * k) := by
    calc m * 2 ^ shift < m * (2 * k) := Nat.mul_lt_mul_of_pos_left (hless hk) hm
      _ = 2 * (m * k) := by ring
  have hexact : m * 2 ^ shift = m * k := by
    omega
  exact Nat.eq_of_mul_eq_mul_left hm hexact

variable {shift : Nat}

section

variable (h : Accepted config dd blockSize dd' shift) (hdvd : dd.mediaBlockSize ∣ blockSize)
include h hdvd

/-- The media block of a block of an accepted device. -/
theorem Accepted.mediaBlock_eq (hlt : blockSize < 2 ^ 32) {i : Nat} (hi : i < dd'.blockCount) :
    mediaBlock dd' i = i * (blockSize / dd.mediaBlockSize) ∧
      i * (blockSize / dd.mediaBlockSize) + blockSize / dd.mediaBlockSize ≤ dd.size := by
  have hend := dd.end_lt
  have hroom : i * (blockSize / dd.mediaBlockSize) + blockSize / dd.mediaBlockSize ≤
      dd.size := by
    rw [h.count_eq] at hi
    calc i * (blockSize / dd.mediaBlockSize) + blockSize / dd.mediaBlockSize
        = (i + 1) * (blockSize / dd.mediaBlockSize) := by ring
      _ ≤ dd.size / (blockSize / dd.mediaBlockSize) * (blockSize / dd.mediaBlockSize) :=
          Nat.mul_le_mul_right _ hi
      _ ≤ dd.size := Nat.div_mul_le_self ..
  refine ⟨?_, hroom⟩
  have hper := h.per_pos
  have hstored := h.shift_eq
  by_cases hsame : dd.mediaBlockSize * 2 ^ shift % 2 ^ 32 = blockSize
  · have hexact := shift_exact h.media_pos hdvd h.pos hlt h.loop hsame
    rw [if_neg (not_not.mpr hsame)] at hstored
    rw [mediaBlock, hstored, if_pos (Int.natCast_nonneg shift), Int.toNat_natCast, hexact]
    exact Nat.mod_eq_of_lt (by omega)
  · have hneg : ¬(0 : Int) ≤ -1 := by decide
    have hi' : i < 2 ^ 32 := by
      have : i ≤ i * (blockSize / dd.mediaBlockSize) := Nat.le_mul_of_pos_right i hper
      omega
    have hproduct : i * blockSize < 2 ^ 64 := by
      calc i * blockSize < 2 ^ 32 * 2 ^ 32 := Nat.mul_lt_mul'' hi' hlt
        _ = 2 ^ 64 := by norm_num
    rw [if_pos hsame] at hstored
    rw [mediaBlock, hstored, if_neg hneg, h.size_eq, h.media_eq, Nat.mod_eq_of_lt hproduct,
      Nat.mul_div_assoc i hdvd]
    exact Nat.mod_eq_of_lt (by omega)

/-- The first media block of a block. -/
theorem Accepted.getMediaBlock_eq (hlt : blockSize < 2 ^ 32) {i first : Nat}
    (hi : getMediaBlock dd' i = some first) :
    first = dd.start + i * (blockSize / dd.mediaBlockSize) ∧
      first + blockSize / dd.mediaBlockSize ≤ dd.start + dd.size := by
  have hend := dd.end_lt
  unfold getMediaBlock at hi
  split at hi
  · next hcount =>
    obtain ⟨hblock, hroom⟩ := h.mediaBlock_eq hdvd hlt hcount
    obtain rfl := Option.some.inj hi
    rw [hblock, h.start_eq]
    generalize blockSize / dd.mediaBlockSize = per at hroom ⊢
    omega
  · cases hi

theorem Occupies.bounds {first k : Nat} (hk : Occupies dd' first k) :
    first ≤ k ∧ k < first + blockSize / dd.mediaBlockSize := by
  obtain ⟨hge, hbytes⟩ := hk
  rw [h.media_eq, h.size_eq] at hbytes
  have hlt := (Nat.lt_div_iff_mul_lt_of_dvd h.media_pos.ne' hdvd).mpr hbytes
  omega

end

/-- The first block begins with the device. -/
theorem Accepted.getMediaBlock_zero (h : Accepted config dd blockSize dd' shift)
    (hcount : 0 < dd'.blockCount) : getMediaBlock dd' 0 = some dd.start := by
  have hend := dd.end_lt
  have hzero : mediaBlock dd' 0 = 0 := by
    unfold mediaBlock
    split <;> simp
  rw [getMediaBlock, if_pos hcount, hzero, h.start_eq, Nat.zero_add, Nat.mod_eq_of_lt (by omega)]

section

variable (h : Accepted config dd blockSize dd' shift) (hndvd : ¬dd.mediaBlockSize ∣ blockSize)
include h hndvd

/-- A block that is no multiple of the media blocks occupies one more of them than it counts. -/
theorem Accepted.occupies_iff {first k : Nat} :
    Occupies dd' first k ↔ first ≤ k ∧ k ≤ first + blockSize / dd.mediaBlockSize := by
  have hrest : 0 < blockSize % dd.mediaBlockSize :=
    Nat.pos_of_ne_zero fun hzero => hndvd (Nat.dvd_of_mod_eq_zero hzero)
  have hsum := Nat.div_add_mod blockSize dd.mediaBlockSize
  have hmod := Nat.mod_lt blockSize h.media_pos
  rw [Nat.mul_comm] at hsum
  unfold Occupies
  rw [h.media_eq, h.size_eq]
  refine and_congr_right fun hge => ?_
  constructor
  · intro hbytes
    by_contra hgt
    have hmul := Nat.mul_le_mul_right dd.mediaBlockSize
      (show blockSize / dd.mediaBlockSize + 1 ≤ k - first by omega)
    rw [Nat.succ_mul] at hmul
    omega
  · intro hle
    have hmul := Nat.mul_le_mul_right dd.mediaBlockSize
      (show k - first ≤ blockSize / dd.mediaBlockSize by omega)
    omega

/-- Its media blocks are computed with a quotient. -/
theorem Accepted.shift_eq_neg (hlt : blockSize < 2 ^ 32) :
    dd'.blockToMediaBlockShift = -1 := by
  obtain ⟨-, hless⟩ := shiftLoop_spec h.loop fun _ => by omega
  -- A product that was reduced would be at least twice the block size.
  have hbound : dd.mediaBlockSize * 2 ^ shift < 2 * blockSize :=
    calc dd.mediaBlockSize * 2 ^ shift
        < dd.mediaBlockSize * (2 * (blockSize / dd.mediaBlockSize)) :=
          Nat.mul_lt_mul_of_pos_left (hless h.per_pos) h.media_pos
      _ = 2 * (dd.mediaBlockSize * (blockSize / dd.mediaBlockSize)) := by ring
      _ ≤ 2 * blockSize := Nat.mul_le_mul_left _ (Nat.mul_div_le ..)
  have hne : dd.mediaBlockSize * 2 ^ shift % 2 ^ 32 ≠ blockSize := by
    intro hsame
    have hexact : dd.mediaBlockSize * 2 ^ shift = blockSize := by
      omega
    exact hndvd (hexact ▸ Nat.dvd_mul_right ..)
  rw [h.shift_eq, if_pos hne]

/-- The second block begins with the last media block of the first one. -/
theorem Accepted.getMediaBlock_one (hlt : blockSize < 2 ^ 32)
    (hsize : 2 * (blockSize / dd.mediaBlockSize) ≤ dd.size) :
    getMediaBlock dd' 1 = some (dd.start + blockSize / dd.mediaBlockSize) := by
  have hend := dd.end_lt
  have hneg : ¬(0 : Int) ≤ -1 := by decide
  have hcount : 1 < dd'.blockCount := by
    rw [h.count_eq]
    exact (Nat.le_div_iff_mul_le h.per_pos).mpr hsize
  have hper := Nat.div_le_self blockSize dd.mediaBlockSize
  rw [getMediaBlock, if_pos hcount, mediaBlock, h.shift_eq_neg hndvd hlt, if_neg hneg, h.size_eq,
    h.media_eq, h.start_eq, Nat.one_mul, Nat.mod_eq_of_lt (hlt.trans (by decide)),
    Nat.mod_eq_of_lt (hper.trans_lt hlt), Nat.add_comm, Nat.mod_eq_of_lt (by omega)]

end

/-- A call that divides by zero found a group of buffers for a size below the media block size. -/
theorem of_dividesByZero (hm : 1 ≤ dd.mediaBlockSize)
    (h : setBlockSize config dd blockSize = .dividesByZero) :
    0 < blockSize ∧ (∃ n, bdsPerGroup config blockSize = some n ∧ n ≠ 0) ∧
      blockSize / dd.mediaBlockSize = 0 := by
  unfold setBlockSize at h
  split at h
  · next hpos =>
    split at h
    · cases h
    · cases h
    · next group hgroup hsome =>
      rw [if_neg (by omega)] at h
      simp only at h
      split at h
      · cases h
      · split at h
        · next hper => exact ⟨hpos, ⟨group, hsome, fun hzero => hgroup (hzero ▸ rfl)⟩, hper⟩
        · cases h
  · cases h

/-- Without a group of buffers no size is accepted. -/
theorem Consistent.of_no_group (hm : 1 ≤ dd.mediaBlockSize)
    (hgroup : ∀ n, bdsPerGroup config blockSize = some n → n = 0) :
    Consistent config dd blockSize := by
  have hnot : ∀ dd', setBlockSize config dd blockSize ≠ .successful dd' := by
    intro dd' h
    obtain ⟨shift, haccepted⟩ := exists_accepted h
    obtain ⟨n, hsome, hn⟩ := haccepted.group
    exact hn (hgroup n hsome)
  refine ⟨?_, fun dd' h => absurd h (hnot dd'), fun dd' h => absurd h (hnot dd')⟩
  intro h
  obtain ⟨-, ⟨n, hsome, hn⟩, -⟩ := of_dividesByZero hm h
  exact hn (hgroup n hsome)

/-- Blocks of some media blocks follow each other. -/
theorem Consistent.of_dvd (hm : 1 ≤ dd.mediaBlockSize) (hlt : blockSize < 2 ^ 32)
    (hdvd : dd.mediaBlockSize ∣ blockSize) : Consistent config dd blockSize := by
  constructor
  · intro h
    obtain ⟨hpos, -, hper⟩ := of_dividesByZero hm h
    exact (Nat.div_pos (Nat.le_of_dvd hpos hdvd) hm).ne' hper
  · intro dd' h i first hi k hk
    obtain ⟨shift, haccepted⟩ := exists_accepted h
    obtain ⟨hfirst, hend⟩ := haccepted.getMediaBlock_eq hdvd hlt hi
    obtain ⟨hge, hless⟩ := hk.bounds haccepted hdvd
    omega
  · rintro dd' h i j first first' hi hj hne k ⟨hk, hk'⟩
    obtain ⟨shift, haccepted⟩ := exists_accepted h
    obtain ⟨hfirst, -⟩ := haccepted.getMediaBlock_eq hdvd hlt hi
    obtain ⟨hfirst', -⟩ := haccepted.getMediaBlock_eq hdvd hlt hj
    obtain ⟨hge, hless⟩ := hk.bounds haccepted hdvd
    obtain ⟨hge', hless'⟩ := hk'.bounds haccepted hdvd
    generalize blockSize / dd.mediaBlockSize = per at *
    rcases Nat.lt_or_gt_of_ne hne with hij | hji
    · have := Nat.mul_le_mul_right per (Nat.succ_le_of_lt hij)
      rw [Nat.succ_mul] at this
      omega
    · have := Nat.mul_le_mul_right per (Nat.succ_le_of_lt hji)
      rw [Nat.succ_mul] at this
      omega

/-- The only block of a device has its last part inside if the device is larger than the count. -/
theorem Consistent.of_single (hm : 1 ≤ dd.mediaBlockSize)
    (hndvd : ¬dd.mediaBlockSize ∣ blockSize)
    (hne : dd.size ≠ blockSize / dd.mediaBlockSize)
    (hsmall : dd.size < 2 * (blockSize / dd.mediaBlockSize)) :
    Consistent config dd blockSize := by
  have hfirst : ∀ dd', setBlockSize config dd blockSize = .successful dd' →
      ∀ i first, getMediaBlock dd' i = some first → i = 0 ∧ first = dd.start ∧
        blockSize / dd.mediaBlockSize < dd.size := by
    intro dd' h i first hi
    obtain ⟨shift, haccepted⟩ := exists_accepted h
    have hcount : i < dd'.blockCount := by
      by_contra hge
      rw [getMediaBlock, if_neg hge] at hi
      cases hi
    have hmul : (i + 1) * (blockSize / dd.mediaBlockSize) ≤ dd.size :=
      (Nat.le_div_iff_mul_le haccepted.per_pos).mp
        (haccepted.count_eq ▸ Nat.succ_le_of_lt hcount)
    obtain rfl : i = 0 := by
      by_contra hpos
      have htwo := Nat.mul_le_mul_right (blockSize / dd.mediaBlockSize)
        (show 2 ≤ i + 1 by omega)
      omega
    rw [haccepted.getMediaBlock_zero hcount] at hi
    exact ⟨rfl, (Option.some.inj hi).symm, by omega⟩
  constructor
  · intro h
    obtain ⟨-, -, hper⟩ := of_dividesByZero hm h
    omega
  · intro dd' h i first hi k hk
    obtain ⟨shift, haccepted⟩ := exists_accepted h
    obtain ⟨-, rfl, hroom⟩ := hfirst dd' h i first hi
    obtain ⟨hge, hle⟩ := (haccepted.occupies_iff hndvd).mp hk
    omega
  · intro dd' h i j first first' hi hj hij
    exact absurd ((hfirst dd' h i first hi).1.trans (hfirst dd' h j first' hj).1.symm) hij

/-- A size that is no multiple needs one of the other reasons. -/
theorem Consistent.single_of_not_dvd (h : Consistent config dd blockSize)
    (hm : 1 ≤ dd.mediaBlockSize) (hlt : blockSize < 2 ^ 32) {n : Nat}
    (hgroup : bdsPerGroup config blockSize = some n) (hn : n ≠ 0)
    (hndvd : ¬dd.mediaBlockSize ∣ blockSize) :
    dd.size ≠ blockSize / dd.mediaBlockSize ∧
      dd.size < 2 * (blockSize / dd.mediaBlockSize) := by
  have hpos : 0 < blockSize := Nat.pos_of_ne_zero fun hzero => hndvd (hzero ▸ Nat.dvd_zero _)
  have hmedia : 2 ≤ dd.mediaBlockSize := by
    by_contra hone
    exact hndvd ((show dd.mediaBlockSize = 1 by omega) ▸ Nat.one_dvd _)
  have hper : blockSize / dd.mediaBlockSize ≤ 2 ^ (0 + 31) :=
    (Nat.div_le_div_left hmedia Nat.two_pos).trans (by omega)
  obtain ⟨shift, hshift⟩ := exists_shiftLoop hper
  have houtcome := setBlockSize_of_group hpos hgroup hn hm hshift
  split at houtcome
  · exact absurd houtcome h.not_dividesByZero
  · obtain ⟨dd', hdd'⟩ := houtcome
    obtain ⟨shift', haccepted⟩ := exists_accepted hdd'
    have hcount : blockSize / dd.mediaBlockSize ≤ dd.size → 0 < dd'.blockCount := by
      intro hle
      rw [haccepted.count_eq]
      exact Nat.div_pos hle haccepted.per_pos
    have hlast : Occupies dd' dd.start (dd.start + blockSize / dd.mediaBlockSize) :=
      (haccepted.occupies_iff hndvd).mpr ⟨Nat.le_add_right .., le_rfl⟩
    constructor
    · intro heq
      have hinside := h.inside dd' hdd' 0 _
        (haccepted.getMediaBlock_zero (hcount heq.ge)) _ hlast
      omega
    · by_contra hge
      have hzero := haccepted.getMediaBlock_zero (hcount (by omega))
      have hone := haccepted.getMediaBlock_one hndvd hlt (by omega)
      exact h.disjoint dd' hdd' 0 1 _ _ hzero hone (by decide) _
        ⟨hlast, (haccepted.occupies_iff hndvd).mpr ⟨le_rfl, Nat.le_add_right ..⟩⟩

/-- The disk geometry is consistent exactly for the compatible block sizes. -/
theorem geometry_consistent (config : Config) (dd : DiskDevice) (blockSize : Nat)
    (hm : 1 ≤ dd.mediaBlockSize) (hlt : blockSize < 2 ^ 32) :
    Consistent config dd blockSize ↔ Compatible config dd blockSize := by
  constructor
  · intro h
    unfold Compatible
    by_contra hnone
    push Not at hnone
    obtain ⟨⟨n, hgroup, hn⟩, hndvd, hsize⟩ := hnone
    obtain ⟨hne, hsmall⟩ := h.single_of_not_dvd hm hlt hgroup hn hndvd
    exact absurd hsmall (not_lt.mpr (hsize hne))
  · intro h
    by_cases hdvd : dd.mediaBlockSize ∣ blockSize
    · exact .of_dvd hm hlt hdvd
    · rcases h with hgroup | hmul | ⟨hne, hsmall⟩
      · exact .of_no_group hm hgroup
      · exact absurd hmul hdvd
      · exact .of_single hm hdvd hne hsmall

/-- A cache with buffers of 512 to 4096 bytes. -/
def smallCache : Config := ⟨512, 4096, 32, by decide, by decide⟩

/-- A partition of eight media blocks of 512 bytes. -/
def partition : DiskDevice := ⟨100, 8, 512, 512, 8, 1, 0, 8, by decide⟩

/-- Blocks of two media blocks. -/
theorem geometry_consistent_twoBlocks : Consistent smallCache partition 1024 ∧ ∃ dd',
    setBlockSize smallCache partition 1024 = .successful dd' ∧
      getMediaBlock dd' 1 = some 102 ∧ getMediaBlock dd' 2 = some 104 :=
  ⟨(geometry_consistent smallCache partition 1024 (by decide) (by decide)).mpr
    (.inr (.inl (by decide))), _, rfl, rfl, rfl⟩

/-- A block size below the media block size makes the call divide by zero, and with a block size
of one and a half media blocks the first two blocks share a media block. -/
theorem odd_block_sizes : setBlockSize smallCache partition 256 = .dividesByZero ∧
    ∃ dd', setBlockSize smallCache partition 768 = .successful dd' ∧
      getMediaBlock dd' 0 = some 100 ∧ getMediaBlock dd' 1 = some 101 ∧
      Occupies dd' 100 101 ∧ Occupies dd' 101 101 :=
  ⟨rfl, _, rfl, rfl, rfl, by decide, by decide⟩

end Rtems.BlockDevice
