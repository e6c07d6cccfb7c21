import Mathlib.Data.Nat.Bitwise
import Mathlib.Tactic.Ring
import Rtems.Models.Objects.State

/-!
# Consistency of the object tables

The inactive chain and the objects handed out are, without repetition, the objects of the
blocks in the table; the identifier of an object tells its block and its slot; the counters
of an auto-extending class count the chain. Each primitive of the class keeps this.
-/

namespace Rtems.Objects

open Information

section

variable (theApi : BitVec 32) (theClass : BitVec 16) (node : BitVec 8)
include theApi theClass node

/-- The class part of an identifier leaves the index bits clear. -/
theorem classBits_mod :
    ((theApi <<< 24) ||| (theClass.setWidth 32 <<< 27) ||| (node.setWidth 32 <<< 16)).toNat %
      2 ^ 16 = 0 := by
  rw [BitVec.toNat_or, BitVec.toNat_or, Nat.or_mod_two_pow, Nat.or_mod_two_pow]
  have h1 : (theApi <<< 24).toNat % 2 ^ 16 = 0 := by
    rw [BitVec.toNat_shiftLeft, Nat.shiftLeft_eq]
    omega
  have h2 : (theClass.setWidth 32 <<< 27).toNat % 2 ^ 16 = 0 := by
    rw [BitVec.toNat_shiftLeft, Nat.shiftLeft_eq]
    omega
  have h3 : (node.setWidth 32 <<< 16).toNat % 2 ^ 16 = 0 := by
    rw [BitVec.toNat_shiftLeft, Nat.shiftLeft_eq]
    omega
  rw [h1, h2, h3]
  rfl

/-- The index is read back from an identifier. -/
theorem getIndex_buildId
    (index : BitVec 16) : getIndex (buildId theApi theClass node index) = index.toNat := by
  have hmask : ∀ x : BitVec 32, (x &&& 0xffff#32).toNat = x.toNat % 2 ^ 16 := by
    intro x
    exact Nat.and_two_pow_sub_one_eq_mod _ 16
  rw [getIndex, hmask, buildId, BitVec.toNat_or, Nat.or_mod_two_pow, classBits_mod,
    BitVec.toNat_setWidth]
  rw [Nat.zero_or]
  omega

/-- An identifier is the class part plus the index. -/
theorem buildId_eq_add (index : BitVec 16) :
    buildId theApi theClass node index =
      ((theApi <<< 24) ||| (theClass.setWidth 32 <<< 27) ||| (node.setWidth 32 <<< 16)) +
        index.setWidth 32 := by
  rw [buildId, BitVec.add_eq_or_of_and_eq_zero]
  ext j hj
  by_cases h : j < 16
  · have h1 : j < 24 := by omega
    have h2 : j < 27 := by omega
    simp [h, h1, h2]
  · have := index.getLsbD_of_ge j (by omega)
    simp [this]

end

variable {K : Type} (info : Information K)
  {index : Nat} {b : Nat}

theorem getIndex_idOf (h : index ≤ finalIndex) :
    getIndex (info.idOf index) = index := by
  rw [idOf, getIndex_buildId, BitVec.toNat_ofNat]
  unfold finalIndex at h
  omega

/-- The table position computed by a look-up is the index. -/
theorem lookup_position (h : index ≤ finalIndex) :
    (info.idOf index - info.idOf 1 + 1).toNat = index := by
  have hsub : info.idOf index - info.idOf 1 + 1 = (BitVec.ofNat 16 index).setWidth 32 := by
    rw [idOf, idOf, buildId_eq_add, buildId_eq_add]
    have h1 : (BitVec.ofNat 16 1).setWidth 32 = (1 : BitVec 32) := rfl
    rw [h1]
    ring
  rw [hsub, BitVec.toNat_setWidth, BitVec.toNat_ofNat]
  unfold finalIndex at h
  omega

/-- The inactive chain and the objects handed out are exactly the objects of the blocks in the
table, and the identifiers tell their places. -/
structure Consistent (info : Information K) (handed : List (Control K)) : Prop where
  one_le : 1 ≤ info.allocationSize
  minimum : info.minimumId = info.idOf 1
  maximum : info.maximum = info.blockCount * info.allocationSize
  final : info.maximum ≤ finalIndex
  injective : ∀ b b' k, info.Holds b k → info.Holds b' k → b = b'
  ids : ∀ b k, info.Holds b k → ∀ slot < info.allocationSize,
    info.id ⟨k, slot⟩ = info.idOf (1 + b * info.allocationSize + slot)
  nodup : (info.chain ++ handed).Nodup
  mem : ∀ o, o ∈ info.chain ++ handed ↔
    (∃ b, info.Holds b o.block) ∧ o.slot < info.allocationSize

/-- Every open object is handed out and entered at its index. -/
def Entered (info : Information K) (handed opened : List (Control K)) : Prop :=
  ∀ o ∈ opened, o ∈ handed ∧ info.tables.localTable (info.index o) = some o

namespace Consistent

variable {info} {handed handed' : List (Control K)} (h : Consistent info handed)
include h

theorem minimumIndex_eq : info.minimumIndex = 1 := by
  rw [minimumIndex, h.minimum]
  exact getIndex_idOf info (by decide)

theorem slot_le {b slot : Nat} (hb : b < info.blockCount) (hslot : slot < info.allocationSize) :
    1 + b * info.allocationSize + slot ≤ info.maximum := by
  have hmul : (b + 1) * info.allocationSize ≤ info.blockCount * info.allocationSize :=
    Nat.mul_le_mul_right _ hb
  rw [Nat.add_mul, ← h.maximum] at hmul
  omega

variable {o : Control K}

theorem index_eq (hb : info.Holds b o.block) (hslot : o.slot < info.allocationSize) :
    info.index o = 1 + b * info.allocationSize + o.slot := by
  rw [index, h.ids b o.block hb o.slot hslot]
  exact getIndex_idOf info ((h.slot_le hb.1 hslot).trans h.final)

theorem blockOf_eq (hb : info.Holds b o.block)
    (hslot : o.slot < info.allocationSize) : info.blockOf o = b := by
  have hsub : 1 + b * info.allocationSize + o.slot - 1 = o.slot + b * info.allocationSize := by
    omega
  rw [blockOf, h.index_eq hb hslot, h.minimumIndex_eq, hsub,
    Nat.add_mul_div_right _ _ h.one_le, Nat.div_eq_of_lt hslot, Nat.zero_add]

theorem holds_blockOf (ho : o ∈ info.chain ++ handed) :
    info.Holds (info.blockOf o) o.block ∧ o.slot < info.allocationSize := by
  obtain ⟨⟨b, hb⟩, hslot⟩ := (h.mem o).1 ho
  exact ⟨(h.blockOf_eq hb hslot).symm ▸ hb, hslot⟩

theorem block_iff (ho : o ∈ info.chain ++ handed) (hb : b < info.blockCount) :
    info.tables.objectBlocks b = some o.block ↔ b = info.blockOf o := by
  obtain ⟨hat, hslot⟩ := h.holds_blockOf ho
  constructor
  · intro hblock
    exact h.injective b _ _ ⟨hb, hblock⟩ hat
  · rintro rfl
    exact hat.2

theorem index_le (ho : o ∈ info.chain ++ handed) :
    1 ≤ info.index o ∧ info.index o ≤ info.maximum := by
  obtain ⟨hat, hslot⟩ := h.holds_blockOf ho
  rw [h.index_eq hat hslot]
  exact ⟨by omega, h.slot_le hat.1 hslot⟩

/-- Objects of the class with the same index are the same. -/
theorem index_injective {o o' : Control K} (ho : o ∈ info.chain ++ handed)
    (ho' : o' ∈ info.chain ++ handed) (heq : info.index o = info.index o') : o = o' := by
  obtain ⟨hat, hslot⟩ := h.holds_blockOf ho
  obtain ⟨hat', hslot'⟩ := h.holds_blockOf ho'
  have hblockOf : info.blockOf o = info.blockOf o' := by rw [blockOf, heq, blockOf]
  rw [h.index_eq hat hslot, h.index_eq hat' hslot', hblockOf] at heq
  have hblock : o.block = o'.block := by
    rw [hblockOf] at hat
    exact Option.some.inj (hat.2.symm.trans hat'.2)
  cases o
  cases o'
  simp only at hblock heq
  rw [hblock, Nat.add_left_cancel heq]

/-- Moving objects between the chain and the callers keeps the tables consistent. -/
theorem rearrange {info' : Information K}
    (hframe : info' = { info with
      chain := info'.chain
      inactive := info'.inactive
      tables := ⟨info.tables.objectBlocks, info'.tables.inactivePerBlock, info'.tables.localTable⟩ })
    (hperm : (info'.chain ++ handed').Perm (info.chain ++ handed)) :
    Consistent info' handed' := by
  rw [hframe]
  exact {
    __ := h
    nodup := hperm.nodup_iff.2 h.nodup
    mem := fun o => hperm.mem_iff.trans (h.mem o) }

end Consistent

variable [DecidableEq K]

/-- The counters of an auto-extending class count the inactive chain. -/
structure Counted (info : Information K) : Prop where
  inactive : info.autoExtend = true → info.inactive = info.chain.length
  perBlock : info.autoExtend = true → ∀ b < info.blockCount,
    info.tables.inactivePerBlock b =
      info.chain.countP fun o => info.tables.objectBlocks b = some o.block

end Rtems.Objects
