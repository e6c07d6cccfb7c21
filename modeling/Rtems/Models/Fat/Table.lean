import Rtems.Models.Fat.Disk

/-!
# The file allocation table

An entry of a FAT12 table is one and a half bytes and may cross the end of a sector; entries
of the other tables are two or four bytes, of which a FAT32 entry uses 28 bits. A sector of the
first table that was modified is copied to the other tables when its buffer is released.
-/

namespace Rtems.Fat

variable (vol : Vol)

/-- The address of byte `j` of the entry of a cluster; it may lie in the next sector. -/
def entryByte (cln j : Nat) : Option Nat :=
  let offset := vol.type.offset cln
  let sec := offset / vol.bps + vol.afatLoc
  let ofs := offset % vol.bps
  if ofs + j < vol.bps then (bufAccess vol sec).map (· + (ofs + j))
  else (bufAccess vol (sec + 1)).map (· + (ofs + j - vol.bps))

/-- The bytes of an entry, from the first one on. -/
def readEntry (d : Disk) (cln : Nat) : Nat → Option (List Nat)
  | 0 => some []
  | n + 1 => (readEntry d cln n).bind fun bytes =>
    (entryByte vol cln n).map fun a => bytes ++ [(d a).toNat]

/-- The value of the bytes of an entry. -/
def entryValue (type : FatType) (cln : Nat) (b : Nat → Nat) : Nat :=
  match type with
  | .fat12 => if cln % 2 = 1 then (b 0 + b 1 * 256) / 16 else (b 0 + b 1 * 256) % 4096
  | .fat16 => b 0 + b 1 * 256
  | .fat32 => b 0 + b 1 * 256 + b 2 * 65536 + b 3 * 16777216

/-- `fat_get_fat_cluster`. -/
def getFat (d : Disk) (cln : Nat) : Option Nat :=
  if vol.IsData cln then
    (readEntry vol d cln vol.type.width).map fun bytes =>
      entryValue vol.type cln fun j => bytes.getD j 0
  else none

/-- The bytes of an entry with a new value; the bits that are not part of it are kept. -/
def newByte (type : FatType) (cln : Nat) (b : Nat → Nat) (val j : Nat) : Nat :=
  match type with
  | .fat12 =>
    if cln % 2 = 1 then if j = 0 then b 0 % 16 + val % 16 * 16 else val / 16 % 256
    else if j = 0 then val % 256 else b 1 / 16 * 16 + val / 256 % 16
  | .fat16 => if j = 0 then val % 256 else val / 256 % 256
  | .fat32 =>
    if j = 0 then val % 256 else if j = 1 then val / 256 % 256
    else if j = 2 then val / 65536 % 256 else b 3 / 16 * 16 + val / 16777216 % 16

/-- Set the bytes of an entry, from the first one on. -/
def writeEntry (d : Disk) (cln : Nat) (bytes : Nat → Nat) : Nat → Option Disk
  | 0 => some d
  | n + 1 => (writeEntry d cln bytes n).bind fun d =>
    (entryByte vol cln n).map fun a => Function.update d a (UInt8.ofNat (bytes n))

/-- `fat_buf_release` of a modified sector: a sector of a table is copied to the others. -/
def bufRelease (d : Disk) (sec : Nat) : Disk :=
  if vol.mirror = false ∧ vol.fatLoc ≤ sec ∧ sec < vol.rdirLoc then
    fun a =>
      let t := a / vol.bps
      if sec < t ∧ (t - sec) % vol.fatLength = 0 ∧ (t - sec) / vol.fatLength < vol.fats then
        d (a - (t - sec) * vol.bps)
      else d a
  else d

/-- `fat_set_fat_cluster`. -/
def setFat (d : Disk) (cln val : Nat) : Option Disk :=
  if vol.IsData cln then
    (readEntry vol d cln vol.type.width).bind fun old =>
      let bytes := newByte vol.type cln (fun j => old.getD j 0) val
      (writeEntry vol d cln bytes vol.type.width).map fun d =>
        let sec := vol.type.offset cln / vol.bps + vol.afatLoc
        let d := bufRelease vol d sec
        if vol.bps < vol.type.offset cln % vol.bps + vol.type.width then bufRelease vol d (sec + 1)
        else d
  else none

/-- The address of a table. -/
def Vol.tableAddr (i : Nat) : Nat :=
  (vol.fatLoc + i * vol.fatLength) * vol.bps

/-- The tables are copies of each other, if they are copied at all. -/
def Synced (d : Disk) : Prop :=
  vol.mirror = false → ∀ i j, i < vol.fats → j < vol.fatLength * vol.bps →
    d (vol.tableAddr i + j) = d (vol.tableAddr 0 + j)

variable {vol} {cln : Nat}

/-- The entries of the data clusters lie in a table. -/
theorem offset_add_width_le (h : vol.IsData cln) :
    vol.type.offset cln + vol.type.width ≤ vol.fatLength * vol.bps := by
  have hfits : vol.type.offset (vol.dataCls + 1) + vol.type.width ≤ vol.fatLength * vol.bps :=
    vol.fat_fits
  have hle : vol.type.offset cln ≤ vol.type.offset (vol.dataCls + 1) := by
    have hlt := h.2
    simp only [rsrvdCln] at hlt
    cases vol.type <;> simp only [FatType.offset] <;> omega
  omega

theorem tableAddr_afat : vol.tableAddr vol.afat = vol.afatLoc * vol.bps := by
  rw [Vol.tableAddr, Vol.afatLoc, Nat.mul_comm vol.afat]

variable {i i' : Nat} {n : Nat} {b b' : Nat → Nat} {c : Nat}

theorem tableAddr_add_le_of_lt (h : i < i') :
    vol.tableAddr i + vol.fatLength * vol.bps ≤ vol.tableAddr i' := by
  rw [Vol.tableAddr, Vol.tableAddr, ← Nat.add_mul]
  apply Nat.mul_le_mul_right
  have hmul : (i + 1) * vol.fatLength ≤ i' * vol.fatLength := Nat.mul_le_mul_right _ h
  rw [Nat.succ_mul] at hmul
  omega

theorem tableAddr_add_le {i : Nat} (h : i < vol.fats) :
    vol.tableAddr i + vol.fatLength * vol.bps ≤ vol.rdirLoc * vol.bps :=
  tableAddr_add_le_of_lt h

/-- The address of a byte of an entry. -/
theorem entryByte_eq {cln j : Nat} (h : vol.IsData cln) (hj : j < vol.type.width) :
    entryByte vol cln j = some (vol.tableAddr vol.afat + vol.type.offset cln + j) := by
  have hfits := offset_add_width_le h
  have htable := tableAddr_add_le vol.afat_lt
  have hroot : vol.rdirLoc * vol.bps ≤ vol.endSec * vol.bps := by
    apply Nat.mul_le_mul_right
    unfold Vol.endSec Vol.dataFsec
    omega
  rw [tableAddr_afat] at htable ⊢
  obtain ⟨offset, hoffset⟩ := @exists_eq _ (vol.type.offset cln)
  have hdiv := Nat.div_add_mod' offset vol.bps
  simp only [entryByte, ← hoffset]
  split
  next hin =>
    have hsec : offset / vol.bps + vol.afatLoc < vol.endSec := by
      apply Nat.lt_of_mul_lt_mul_right (a := vol.bps)
      rw [Nat.add_mul]
      omega
    rw [bufAccess_eq hsec, Option.map_some, Nat.add_mul]
    congr 1
    omega
  next hout =>
    have hsec : offset / vol.bps + vol.afatLoc + 1 < vol.endSec := by
      apply Nat.lt_of_mul_lt_mul_right (a := vol.bps)
      rw [Nat.succ_mul, Nat.add_mul]
      omega
    rw [bufAccess_eq hsec, Option.map_some, Nat.succ_mul, Nat.add_mul]
    congr 1
    omega

/-- The value of the entry of a data cluster on the disk. -/
def entry (vol : Vol) (d : Disk) (cln : Nat) : Nat :=
  entryValue vol.type cln fun j => (d (vol.tableAddr vol.afat + vol.type.offset cln + j)).toNat

/-- The bytes of an entry. -/
theorem readEntry_eq (d : Disk) (h : vol.IsData cln) (hn : n ≤ vol.type.width) :
    readEntry vol d cln n = some ((List.range n).map fun j =>
      (d (vol.tableAddr vol.afat + vol.type.offset cln + j)).toNat) := by
  induction n with
  | zero => rfl
  | succ n ih =>
    rw [readEntry, ih (Nat.le_of_succ_le hn), Option.bind_some, entryByte_eq h hn, Option.map_some,
      List.range_succ, List.map_append]
    rfl

variable {type : FatType}

theorem entryValue_congr
    (h : ∀ j, j < type.width → b j = b' j) : entryValue type cln b = entryValue type cln b' := by
  cases type with
  | fat12 | fat16 => simp only [entryValue, h 0 (by decide), h 1 (by decide)]
  | fat32 =>
    simp only [entryValue, h 0 (by decide), h 1 (by decide), h 2 (by decide), h 3 (by decide)]

theorem newByte_congr (h : ∀ j, j < type.width → b j = b' j) (val j : Nat) :
    newByte type cln b val j = newByte type cln b' val j := by
  cases type with
  | fat12 => simp only [newByte, h 0 (by decide), h 1 (by decide)]
  | fat16 => rfl
  | fat32 => simp only [newByte, h 3 (by decide)]

theorem tableAddr_div {i j : Nat} :
    (vol.tableAddr i + j) / vol.bps = vol.fatLoc + i * vol.fatLength + j / vol.bps := by
  rw [Vol.tableAddr, Nat.add_comm, Nat.add_mul_div_right _ _ vol.bps_pos, Nat.add_comm]

/-- A released sector of the first table is copied to the same place of the others. -/
theorem bufRelease_table (d : Disk) (hmirror : vol.mirror = false) {s i j : Nat}
    (hs : s < vol.fatLength) (hi : i < vol.fats) (hj : j < vol.fatLength * vol.bps) :
    bufRelease vol d (vol.fatLoc + s) (vol.tableAddr i + j) =
      if j / vol.bps = s then d (vol.tableAddr 0 + j) else d (vol.tableAddr i + j) := by
  have hq : j / vol.bps < vol.fatLength := by
    rw [Nat.div_lt_iff_lt_mul vol.bps_pos]
    exact hj
  have hlength : 0 < vol.fatLength := Nat.zero_lt_of_lt hs
  have hroot : vol.fatLoc + s < vol.rdirLoc := by
    have hmul : 1 * vol.fatLength ≤ vol.fats * vol.fatLength :=
      Nat.mul_le_mul_right _ (Nat.zero_lt_of_lt hi)
    unfold Vol.rdirLoc
    omega
  rw [bufRelease, if_pos ⟨hmirror, Nat.le_add_right _ _, hroot⟩]
  simp only [tableAddr_div]
  obtain ⟨q, hqdef⟩ := @exists_eq _ (j / vol.bps)
  rw [← hqdef] at hq ⊢
  cases i with
  | zero =>
    by_cases hqs : q = s
    · rw [if_neg (by omega), if_pos hqs]
    · rw [if_neg hqs, if_neg]
      rintro ⟨hlt, hmod, -⟩
      rw [Nat.mod_eq_of_lt (by omega)] at hmod
      omega
  | succ i =>
    by_cases hqs : q = s
    · subst hqs
      have hdiff : vol.fatLoc + (i + 1) * vol.fatLength + q - (vol.fatLoc + q) =
          (i + 1) * vol.fatLength := by omega
      have hpos : 0 < (i + 1) * vol.fatLength := Nat.mul_pos (Nat.succ_pos i) hlength
      rw [hdiff, Nat.mul_mod_left, Nat.mul_div_cancel _ hlength, if_pos ⟨by omega, rfl, hi⟩,
        if_pos rfl]
      congr 1
      simp only [Vol.tableAddr, Nat.add_mul, Nat.zero_mul]
      omega
    · rw [if_neg hqs, if_neg]
      rintro ⟨-, hmod, -⟩
      rw [Nat.succ_mul] at hmod
      rcases Nat.lt_or_gt_of_ne hqs with hlt | hgt
      · rw [show vol.fatLoc + (i * vol.fatLength + vol.fatLength) + q - (vol.fatLoc + s) =
          (vol.fatLength - (s - q)) + i * vol.fatLength by omega, Nat.add_mul_mod_self_right,
          Nat.mod_eq_of_lt (by omega)] at hmod
        omega
      · rw [show vol.fatLoc + (i * vol.fatLength + vol.fatLength) + q - (vol.fatLoc + s) =
          (q - s) + (i + 1) * vol.fatLength by rw [Nat.succ_mul]; omega,
          Nat.add_mul_mod_self_right, Nat.mod_eq_of_lt (by omega)] at hmod
        omega

/-- A release changes nothing outside of the tables. -/
theorem bufRelease_outside (d : Disk) {s a : Nat} (hs : s < vol.fatLength)
    (ha : a < vol.fatLoc * vol.bps ∨ vol.rdirLoc * vol.bps ≤ a) :
    bufRelease vol d (vol.fatLoc + s) a = d a := by
  have hlength : 0 < vol.fatLength := Nat.zero_lt_of_lt hs
  rw [bufRelease]
  split
  next =>
    apply if_neg
    rintro ⟨hlt, hmod, hdiv⟩
    obtain ⟨k, hk⟩ := Nat.dvd_of_mod_eq_zero hmod
    rw [hk, Nat.mul_div_cancel_left _ hlength] at hdiv
    have hmul : (k + 1) * vol.fatLength ≤ vol.fats * vol.fatLength := Nat.mul_le_mul_right _ hdiv
    rw [Nat.succ_mul, Nat.mul_comm k] at hmul
    rcases ha with hlow | hhigh
    · have := (Nat.div_lt_iff_lt_mul vol.bps_pos).mpr hlow
      omega
    · have := (Nat.le_div_iff_mul_le vol.bps_pos).mpr hhigh
      unfold Vol.rdirLoc at this
      omega
  next => rfl

/-- The byte of an entry fits a byte. -/
theorem newByte_lt {cln val j : Nat} {b : Nat → Nat} (hb : ∀ j, b j < 256) :
    newByte type cln b val j < 256 := by
  have h1 := hb 1
  have h3 := hb 3
  cases type with
  | fat12 =>
    simp only [newByte]
    split <;> split <;> omega
  | fat16 =>
    simp only [newByte]
    split <;> omega
  | fat32 =>
    simp only [newByte]
    split
    · omega
    · split
      · omega
      · split <;> omega

/-- What setting an entry does to the disk. -/
structure EntrySet (vol : Vol) (d : Disk) (cln val : Nat) (d' : Disk) : Prop where
  /-- The tables are still copies of each other. -/
  synced : Synced vol d'
  /-- Nothing changes outside of the tables. -/
  outside : ∀ a, a < vol.fatLoc * vol.bps ∨ vol.rdirLoc * vol.bps ≤ a → d' a = d a
  /-- Nothing changes in the tables outside of the bytes of the entry. -/
  table : ∀ i j, i < vol.fats → j < vol.fatLength * vol.bps →
    ¬ (vol.type.offset cln ≤ j ∧ j < vol.type.offset cln + vol.type.width) →
    d' (vol.tableAddr i + j) = d (vol.tableAddr i + j)
  /-- The bytes of the entry. -/
  bytes : ∀ j, j < vol.type.width →
    (d' (vol.tableAddr vol.afat + vol.type.offset cln + j)).toNat =
      newByte vol.type cln
        (fun j => (d (vol.tableAddr vol.afat + vol.type.offset cln + j)).toNat) val j

/-- The sectors of an entry lie in a table. -/
theorem entry_sectors_lt (h : vol.IsData cln) :
    vol.type.offset cln / vol.bps < vol.fatLength ∧
      (vol.bps < vol.type.offset cln % vol.bps + vol.type.width →
        vol.type.offset cln / vol.bps + 1 < vol.fatLength) := by
  have hfits := offset_add_width_le h
  have hwidth : 0 < vol.type.width := by cases vol.type <;> decide
  have hsplit := Nat.div_add_mod' (vol.type.offset cln) vol.bps
  obtain ⟨s, hs⟩ := @exists_eq _ (vol.type.offset cln / vol.bps)
  constructor
  · apply Nat.lt_of_mul_lt_mul_right (a := vol.bps)
    omega
  · intro hlong
    apply Nat.lt_of_mul_lt_mul_right (a := vol.bps)
    rw [Nat.succ_mul]
    omega

/-- The bytes of an entry lie in its sectors. -/
theorem div_entry (vol : Vol) (cln j : Nat)
    (hj : vol.type.offset cln ≤ j ∧ j < vol.type.offset cln + vol.type.width) :
    j / vol.bps = vol.type.offset cln / vol.bps ∨
      (vol.bps < vol.type.offset cln % vol.bps + vol.type.width ∧
        j / vol.bps = vol.type.offset cln / vol.bps + 1) := by
  have hbps : 2 ^ 9 ≤ vol.bps := Nat.pow_le_pow_right Nat.zero_lt_two vol.secLog2_mem.1
  have hwidth : vol.type.width ≤ 4 := by cases vol.type <;> decide
  have hsplit := Nat.div_add_mod' (vol.type.offset cln) vol.bps
  obtain ⟨s, hs⟩ := @exists_eq _ (vol.type.offset cln / vol.bps)
  have hmod := Nat.mod_lt (vol.type.offset cln) vol.bps_pos
  rw [← hs] at hsplit ⊢
  rcases Nat.lt_or_ge j (s * vol.bps + vol.bps) with hlt | hge
  · left
    exact Nat.div_eq_of_lt_le (by omega) (by rw [Nat.succ_mul]; omega)
  · right
    refine ⟨by omega, Nat.div_eq_of_lt_le (by rw [Nat.succ_mul]; omega) ?_⟩
    rw [Nat.succ_mul, Nat.succ_mul]
    omega

/-- The disk after the sectors of an entry were released. -/
def released (vol : Vol) (d : Disk) (cln : Nat) : Disk :=
  let sec := vol.type.offset cln / vol.bps + vol.afatLoc
  let d := bufRelease vol d sec
  if vol.bps < vol.type.offset cln % vol.bps + vol.type.width then bufRelease vol d (sec + 1)
  else d

/-- The copies after the sectors of an entry were released: the released sectors are those of
the first table. -/
theorem release_table (d : Disk) (hmirror : vol.mirror = false) {cln i j : Nat}
    (h : vol.IsData cln) (hi : i < vol.fats) (hj : j < vol.fatLength * vol.bps) :
    released vol d cln (vol.tableAddr i + j) =
      if j / vol.bps = vol.type.offset cln / vol.bps ∨
        (vol.bps < vol.type.offset cln % vol.bps + vol.type.width ∧
          j / vol.bps = vol.type.offset cln / vol.bps + 1) then d (vol.tableAddr 0 + j)
      else d (vol.tableAddr i + j) := by
  have hafat : vol.afatLoc = vol.fatLoc := by
    rw [Vol.afatLoc, vol.afat_eq hmirror, Nat.mul_zero, Nat.add_zero]
  obtain ⟨hlt, hlt'⟩ := entry_sectors_lt h
  unfold released
  generalize vol.type.offset cln / vol.bps = s at hlt hlt'
  have hfirst : ∀ i, i < vol.fats → bufRelease vol d (vol.fatLoc + s) (vol.tableAddr i + j) =
      if j / vol.bps = s then d (vol.tableAddr 0 + j) else d (vol.tableAddr i + j) :=
    fun i hi => bufRelease_table d hmirror hlt hi hj
  simp only [hafat, Nat.add_comm s vol.fatLoc]
  split
  next hlong =>
    rw [Nat.add_assoc, bufRelease_table _ hmirror (hlt' hlong) hi hj, hfirst i hi,
      hfirst 0 (Nat.zero_lt_of_lt hi)]
    by_cases h₀ : j / vol.bps = s
    · rw [if_neg (by omega), if_pos h₀, if_pos (Or.inl h₀)]
    · by_cases h₁ : j / vol.bps = s + 1
      · rw [if_pos h₁, if_neg h₀, if_pos (Or.inr ⟨hlong, h₁⟩)]
      · rw [if_neg h₁, if_neg h₀, if_neg (by omega)]
  next hshort =>
    rw [hfirst i hi]
    by_cases h₀ : j / vol.bps = s
    · rw [if_pos h₀, if_pos (Or.inl h₀)]
    · rw [if_neg h₀, if_neg (by omega)]

/-- What setting an entry does to the active table. -/
structure ActiveSet (vol : Vol) (d : Disk) (cln val : Nat) (d' : Disk) : Prop where
  /-- Nothing changes outside of the bytes of the entry. -/
  table : ∀ j, j < vol.fatLength * vol.bps →
    ¬ (vol.type.offset cln ≤ j ∧ j < vol.type.offset cln + vol.type.width) →
    d' (vol.tableAddr vol.afat + j) = d (vol.tableAddr vol.afat + j)
  /-- The bytes of the entry. -/
  bytes : ∀ j, j < vol.type.width →
    (d' (vol.tableAddr vol.afat + vol.type.offset cln + j)).toNat =
      newByte vol.type cln
        (fun j => (d (vol.tableAddr vol.afat + vol.type.offset cln + j)).toNat) val j

section

variable (d : Disk) (h : vol.IsData cln)
include d h

theorem getFat_eq :
    getFat vol d cln = some (entry vol d cln) := by
  rw [getFat, if_pos h, readEntry_eq d h (Nat.le_refl _), Option.map_some]
  congr 1
  apply entryValue_congr
  intro j hj
  simp [hj]

/-- Setting the bytes of an entry. -/
theorem writeEntry_eq (bytes : Nat → Nat)
    (hn : n ≤ vol.type.width) :
    writeEntry vol d cln bytes n = some (patch d (vol.tableAddr vol.afat + vol.type.offset cln)
      (fun j => UInt8.ofNat (bytes j)) n) := by
  induction n with
  | zero =>
    rw [patch_zero]
    rfl
  | succ n ih =>
    rw [writeEntry, ih (Nat.le_of_succ_le hn), Option.bind_some, entryByte_eq h hn, Option.map_some,
      ← patch_patch]
    congr 1
    funext p
    by_cases hp : p = vol.tableAddr vol.afat + vol.type.offset cln + n
    · rw [hp, Function.update_self, patch_inside _ _ (Nat.le_refl _) (Nat.lt_succ_self _)]
      simp
    · rw [Function.update_of_ne hp]
      exact (patch_outside _ _ (by omega)).symm

theorem released_active {j : Nat}
    (hj : j < vol.fatLength * vol.bps) :
    released vol d cln (vol.tableAddr vol.afat + j) = d (vol.tableAddr vol.afat + j) := by
  cases hmirror : vol.mirror with
  | true => simp [released, bufRelease, hmirror]
  | false =>
    have hfirst := release_table d hmirror h vol.afat_lt hj
    rwa [vol.afat_eq hmirror, ite_self, ← vol.afat_eq hmirror] at hfirst

/-- `fat_set_fat_cluster` writes the bytes of the entry and releases their sectors. -/
theorem setFat_eq (val : Nat) :
    ∃ d₁, setFat vol d cln val = some (released vol d₁ cln) ∧
      (∀ a, a < vol.fatLoc * vol.bps ∨ vol.rdirLoc * vol.bps ≤ a → d₁ a = d a) ∧
      (∀ i j, i < vol.fats → j < vol.fatLength * vol.bps →
        ¬ (vol.type.offset cln ≤ j ∧ j < vol.type.offset cln + vol.type.width) →
        d₁ (vol.tableAddr i + j) = d (vol.tableAddr i + j)) ∧
      ActiveSet vol d cln val (released vol d₁ cln) := by
  have hfits := offset_add_width_le h
  have htable := tableAddr_add_le vol.afat_lt
  have hloc : vol.fatLoc * vol.bps ≤ vol.tableAddr vol.afat :=
    Nat.mul_le_mul_right _ (Nat.le_add_right _ _)
  generalize hbytes : newByte vol.type cln
    (fun j => (d (vol.tableAddr vol.afat + vol.type.offset cln + j)).toNat) val = bytes
  have hset : setFat vol d cln val = some (released vol (patch d
      (vol.tableAddr vol.afat + vol.type.offset cln) (fun j => UInt8.ofNat (bytes j))
      vol.type.width) cln) := by
    have hnew : newByte vol.type cln (fun j => ((List.range vol.type.width).map fun j =>
        (d (vol.tableAddr vol.afat + vol.type.offset cln + j)).toNat).getD j 0) val = bytes := by
      rw [← hbytes]
      funext j
      apply newByte_congr
      intro j hj
      simp [hj]
    simp only [setFat, if_pos h, readEntry_eq d h (Nat.le_refl _), Option.bind_some, hnew,
      writeEntry_eq d h bytes (Nat.le_refl _), Option.map_some]
    rfl
  have htable₁ : ∀ i j, i < vol.fats → j < vol.fatLength * vol.bps →
      ¬ (vol.type.offset cln ≤ j ∧ j < vol.type.offset cln + vol.type.width) →
      patch d (vol.tableAddr vol.afat + vol.type.offset cln) (fun j => UInt8.ofNat (bytes j))
        vol.type.width (vol.tableAddr i + j) = d (vol.tableAddr i + j) := by
    intro i j hi hj hout
    apply patch_outside
    by_cases hia : i = vol.afat
    · rw [hia]
      omega
    · rcases Nat.lt_or_gt_of_ne hia with hlt | hlt <;>
        have hle := @tableAddr_add_le_of_lt vol _ _ hlt <;> omega
  refine ⟨_, hset, fun a ha => patch_outside _ _ (by omega), htable₁, ?_, ?_⟩
  · intro j hj hout
    rw [released_active _ h hj, htable₁ _ j vol.afat_lt hj hout]
  · intro j hj
    rw [Nat.add_assoc, released_active _ h (by omega), ← Nat.add_assoc, patch_add _ _ hj,
      UInt8.toNat_ofNat', hbytes]
    apply Nat.mod_eq_of_lt
    rw [← hbytes]
    exact newByte_lt fun j => UInt8.toNat_lt _

end

/-- `fat_set_fat_cluster` of a data cluster. -/
theorem setFat_spec {d : Disk} (hd : Synced vol d) (h : vol.IsData cln) (val : Nat) :
    ∃ d', setFat vol d cln val = some d' ∧ EntrySet vol d cln val d' := by
  obtain ⟨d₁, hset, houtside₁, htable₁, hactive⟩ := setFat_eq d h val
  have hbytes := hactive.bytes
  refine ⟨_, hset, ?_⟩
  cases hmirror : vol.mirror with
  | true =>
    have hrelease : released vol d₁ cln = d₁ := by simp [released, bufRelease, hmirror]
    rw [hrelease] at hbytes ⊢
    refine ⟨?_, houtside₁, htable₁, hbytes⟩
    intro hno
    rw [hmirror] at hno
    cases hno
  | false =>
    have hafat : vol.afat = 0 := vol.afat_eq hmirror
    have hsynced := hd hmirror
    have hrelease : ∀ i j, i < vol.fats → j < vol.fatLength * vol.bps → _ :=
      fun i j hi hj => release_table d₁ hmirror h hi hj
    have hcovered := div_entry vol cln
    refine ⟨?_, ?_, ?_, hbytes⟩
    · intro _ i j hi hj
      rw [hrelease i j hi hj, hrelease 0 j (Nat.zero_lt_of_lt hi) hj]
      split
      next => rfl
      next hnot =>
        have hout := fun hin => hnot (hcovered j hin)
        rw [htable₁ i j hi hj hout, htable₁ 0 j (Nat.zero_lt_of_lt hi) hj hout]
        exact hsynced i j hi hj
    · intro a ha
      have hloc : vol.type.offset cln / vol.bps + vol.afatLoc =
          vol.fatLoc + vol.type.offset cln / vol.bps := by
        rw [Vol.afatLoc, hafat, Nat.mul_zero, Nat.add_zero, Nat.add_comm]
      obtain ⟨hlt, hlt'⟩ := entry_sectors_lt h
      rw [released, hloc]
      split
      next hlong =>
        rw [Nat.add_assoc, bufRelease_outside _ (hlt' hlong) ha, bufRelease_outside _ hlt ha,
          houtside₁ a ha]
      next => rw [bufRelease_outside _ hlt ha, houtside₁ a ha]
    · intro i j hi hj hout
      rw [hrelease i j hi hj]
      split
      next =>
        rw [htable₁ 0 j (Nat.zero_lt_of_lt hi) hj hout]
        exact (hsynced i j hi hj).symm
      next => exact htable₁ i j hi hj hout

/-- The bits of an entry that are not part of its value are kept. -/
theorem entryValue_newByte {b : Nat → Nat} (hb : ∀ j, b j < 256) (cln val : Nat) :
    entryValue type cln (newByte type cln b val) =
      entryValue type cln b / (type.mask + 1) * (type.mask + 1) + val % (type.mask + 1) := by
  have h0 := hb 0
  have h1 := hb 1
  have h2 := hb 2
  cases type with
  | fat12 =>
    simp only [entryValue, newByte, FatType.mask]
    split <;> simp <;> omega
  | fat16 | fat32 =>
    simp only [entryValue, newByte, FatType.mask]
    simp
    omega

theorem ActiveSet.entry_eq {d d' : Disk} {cln val : Nat} (h : ActiveSet vol d cln val d') :
    entry vol d' cln = entry vol d cln / (vol.type.mask + 1) * (vol.type.mask + 1) +
      val % (vol.type.mask + 1) := by
  rw [entry, entryValue_congr h.bytes, entryValue_newByte fun j => UInt8.toNat_lt _]
  rfl

/-- The entries of the other clusters are kept. -/
theorem ActiveSet.entry_other {d d' : Disk} {cln val : Nat} (h : ActiveSet vol d cln val d')
    (hc : vol.IsData c) (hne : c ≠ cln) : entry vol d' c = entry vol d c := by
  have hfits := offset_add_width_le hc
  have hkeep : ∀ j, j < vol.type.width →
      ¬ (vol.type.offset cln ≤ vol.type.offset c + j ∧
        vol.type.offset c + j < vol.type.offset cln + vol.type.width) →
      (d' (vol.tableAddr vol.afat + vol.type.offset c + j)).toNat =
        (d (vol.tableAddr vol.afat + vol.type.offset c + j)).toNat := by
    intro j hj hout
    have := h.table (vol.type.offset c + j) (by omega) hout
    rw [← Nat.add_assoc] at this
    rw [this]
  unfold entry
  cases htype : vol.type with
  | fat16 | fat32 =>
    rw [htype] at hkeep
    apply entryValue_congr
    intro j hj
    apply hkeep j hj
    simp only [FatType.offset, FatType.width] at hj ⊢
    omega
  | fat12 =>
    have hbytes := h.bytes
    rw [htype] at hkeep hbytes
    simp only [FatType.offset, FatType.width] at hkeep hbytes
    obtain ⟨T, hT⟩ := @exists_eq _ (vol.tableAddr vol.afat)
    rw [← hT] at hkeep hbytes ⊢
    simp only [entryValue, FatType.offset]
    rcases Nat.mod_two_eq_zero_or_one c with hceven | hcodd
    · -- An even entry may share its second byte with the odd entry behind it.
      have h0 := hkeep 0 (by decide) (by omega)
      rw [h0]
      by_cases hshare : cln = c + 1
      · have hbyte := hbytes 0 (by decide)
        rw [show T + (cln + cln / 2) + 0 = T + (c + c / 2) + 1 by omega] at hbyte
        rw [if_neg (by omega), if_neg (by omega), hbyte, newByte, if_pos (by omega), if_pos rfl,
          show T + (cln + cln / 2) + 0 = T + (c + c / 2) + 1 by omega]
        omega
      · rw [hkeep 1 (by decide) (by omega)]
    · -- An odd entry may share its first byte with the even entry before it.
      have h1 := hkeep 1 (by decide) (by omega)
      rw [h1]
      by_cases hshare : c = cln + 1
      · have hbyte := hbytes 1 (by decide)
        rw [show T + (cln + cln / 2) + 1 = T + (c + c / 2) + 0 by omega] at hbyte
        rw [if_pos (by omega), if_pos (by omega), hbyte, newByte, if_neg (by omega),
          if_neg (by decide), show T + (cln + cln / 2) + 1 = T + (c + c / 2) + 0 by omega]
        omega
      · rw [hkeep 0 (by decide) (by omega)]

namespace EntrySet

variable {d d' : Disk} {val : Nat} (h : EntrySet vol d cln val d')
include h

theorem active : ActiveSet vol d cln val d' :=
  ⟨fun j => h.table vol.afat j vol.afat_lt, h.bytes⟩

theorem entry_self (hentry : entry vol d cln ≤ vol.type.mask) :
    entry vol d' cln = val % (vol.type.mask + 1) := by
  rw [h.active.entry_eq, Nat.div_eq_of_lt (Nat.lt_succ_of_le hentry), Nat.zero_mul, Nat.zero_add]

theorem entry_other (hc : vol.IsData c) (hne : c ≠ cln) : entry vol d' c = entry vol d c :=
  h.active.entry_other hc hne

end EntrySet

/-- Only a FAT32 entry has bits that are not part of its value. -/
theorem entry_lt {d : Disk} (h : vol.type = .fat32 → entry vol d cln < 2 ^ 28) :
    entry vol d cln < vol.type.mask + 1 := by
  have h0 := UInt8.toNat_lt (d (vol.tableAddr vol.afat + vol.type.offset cln + 0))
  have h1 := UInt8.toNat_lt (d (vol.tableAddr vol.afat + vol.type.offset cln + 1))
  unfold entry at h ⊢
  cases htype : vol.type with
  | fat32 =>
    rw [htype] at h
    exact h rfl
  | fat12 =>
    rw [htype] at h0 h1
    simp only [entryValue, FatType.mask]
    split <;> omega
  | fat16 =>
    rw [htype] at h0 h1
    simp only [entryValue, FatType.mask]
    omega

/-- The reserved bits of the FAT32 entries are part of no value read. -/
def ReadsUnreserved (vol : Vol) (d : Disk) : Prop :=
  vol.type = .fat32 → ∀ c, vol.IsData c → getFat vol d c = some (entry vol d c % 2 ^ 28)

/-- The reserved bits of the FAT32 entries are zero. -/
def ReservedZero (vol : Vol) (d : Disk) : Prop :=
  vol.type = .fat32 → ∀ c, vol.IsData c → entry vol d c < 2 ^ 28

theorem readsUnreserved_iff {d : Disk} : ReadsUnreserved vol d ↔ ReservedZero vol d := by
  refine forall_congr' fun _ => forall_congr' fun c => forall_congr' fun hc => ?_
  rw [getFat_eq _ hc, Option.some.injEq]
  exact ⟨fun h => h ▸ Nat.mod_lt _ (by decide), fun h => (Nat.mod_eq_of_lt h).symm⟩

section

variable {d d' : Disk} {val : Nat} (h : ActiveSet vol d cln val d')
include h

/-- A write keeps the reserved bits of all entries. -/
theorem ActiveSet.reserved (htype : vol.type = .fat32) (hc : vol.IsData c) :
    entry vol d' c / 2 ^ 28 = entry vol d c / 2 ^ 28 := by
  by_cases hne : c = cln
  · rw [hne, h.entry_eq, htype, FatType.mask]
    omega
  · rw [h.entry_other hc hne]

theorem ActiveSet.reservedZero_iff : ReservedZero vol d' ↔ ReservedZero vol d := by
  refine forall_congr' fun htype => forall_congr' fun c => forall_congr' fun hc => ?_
  have hkept := h.reserved htype hc
  omega

end

/-- Whatever the tables hold, setting an entry keeps the values of the other clusters and the
reserved bits of the FAT32 entries. The new value is read back and no value read has reserved
bits in it if and only if those bits are zero in all entries. -/
theorem setFat_cell (d : Disk) (hcln : vol.IsData cln) {val : Nat} (hval : val ≤ vol.type.mask) :
    ∃ d', setFat vol d cln val = some d' ∧
      (∀ c, vol.IsData c → c ≠ cln → getFat vol d' c = getFat vol d c) ∧
      (vol.type = .fat32 → ∀ c, vol.IsData c →
        entry vol d' c / 2 ^ 28 = entry vol d c / 2 ^ 28) ∧
      (getFat vol d' cln = some val ∧ ReadsUnreserved vol d' ↔ ReservedZero vol d) := by
  obtain ⟨_, hset, -, -, hactive⟩ := setFat_eq d hcln val
  refine ⟨_, hset, ?_, fun htype c hc => hactive.reserved htype hc, ?_⟩
  · intro c hc hne
    rw [getFat_eq _ hc, getFat_eq _ hc, hactive.entry_other hc hne]
  · rw [readsUnreserved_iff, hactive.reservedZero_iff, and_iff_right_iff_imp]
    intro hzero
    rw [getFat_eq _ hcln, hactive.entry_eq,
      Nat.div_eq_of_lt (entry_lt fun htype => hzero htype cln hcln), Nat.zero_mul, Nat.zero_add,
      Nat.mod_eq_of_lt (Nat.lt_succ_of_le hval)]

/-- The smallest FAT32 volume with one table. -/
def smallVol : Vol where
  secLog2 := 9
  spcLog2 := 0
  blkLog2 := 9
  fatLoc := 32
  fats := 1
  fatLength := 512
  rdirSecs := 0
  dataCls := 65525
  mirror := true
  afat := 0
  devBlocks := 66069
  secLog2_mem := by decide
  spcLog2_le := by decide
  block := by decide
  dataCls_lt := by decide
  fat_fits := by decide
  afat_lt := by decide
  afat_eq := by decide
  secs_lt := by decide
  dev_fits := by decide

/-- In a table without reserved bits the new value is read back. -/
theorem setFat_cell_two : ∃ d', setFat smallVol (fun _ => 0) 2 5 = some d' ∧
    getFat smallVol d' 2 = some 5 ∧ ReadsUnreserved smallVol d' := by
  obtain ⟨d', hset, -, -, hcell⟩ := @setFat_cell smallVol 2 (fun _ => 0) (by decide) 5 (by decide)
  exact ⟨d', hset, hcell.mpr fun htype c _ => by simp [entry, htype, entryValue]⟩

/-- The reserved bits of an entry are part of the value read. -/
theorem getFat_reserved : (setFat smallVol (fun _ => 0xf0) 2 5).bind (getFat smallVol · 2) =
    some 0xf0000005 := by decide

end Rtems.Fat
