import Rtems.Models.Objects.Tables

/-!
# Extending the object tables

An extension first makes room in the tables, unless a block of the table is free, and then
enters the new block of objects. Making room keeps the entries of the tables unless they
have exactly one index.
-/

namespace Rtems.Objects

open Function Information

variable {K : Type} {info : Information K} {handed opened : List (Control K)}

section Grow

variable {fresh : Tables K}

/-- The tables with room for one more block. -/
def grown (info : Information K) (fresh : Tables K) : Information K :=
  growTables info fresh (1 + info.blockCount * info.allocationSize)
    (1 + info.blockCount * info.allocationSize + info.allocationSize)
    (info.maximum + info.allocationSize)

theorem grown_blockCount (h : Consistent info handed) :
    (grown info fresh).blockCount = info.blockCount + 1 := by
  change (info.maximum + info.allocationSize) / info.allocationSize = _
  rw [h.maximum, ← Nat.add_one_mul, Nat.mul_div_cancel _ h.one_le]

theorem grown_objectBlocks_self : (grown info fresh).tables.objectBlocks info.blockCount = none :=
  update_self ..

section

variable (h : Consistent info handed) (hroom : info.maximum ≠ 1)
include h hroom

theorem grown_block {b : Nat} (hb : b < info.blockCount) :
    (grown info fresh).tables.objectBlocks b = info.tables.objectBlocks b ∧
      (grown info fresh).tables.inactivePerBlock b = info.tables.inactivePerBlock b := by
  have hmax : info.minimumIndex < info.maximum := by
    have := h.slot_le hb h.one_le
    rw [h.minimumIndex_eq]
    omega
  simp [grown, growTables, hmax, update_of_ne hb.ne, hb]

/-- The entries of the local table are kept. -/
theorem grown_localTable {i : Nat} (hi : 1 ≤ i) (hle : i ≤ info.maximum) :
    (grown info fresh).tables.localTable i = info.tables.localTable i := by
  have hmin := h.minimumIndex_eq
  have hmax : info.minimumIndex < info.maximum := by omega
  have hbase : ¬ (1 + info.blockCount * info.allocationSize ≤ i ∧
      i < 1 + info.blockCount * info.allocationSize + info.allocationSize) := by
    rw [← h.maximum]
    omega
  have hlt : i < info.maximum + info.minimumIndex := by omega
  simp [grown, growTables, hmax, hbase, hlt]

/-- Making room adds no block of objects. -/
theorem grown_holds (b : Nat) (k : K) : (grown info fresh).Holds b k ↔ info.Holds b k := by
  unfold Holds
  rw [grown_blockCount h]
  constructor
  · rintro ⟨hb, hk⟩
    rcases Nat.lt_succ_iff_lt_or_eq.1 hb with hb | rfl
    · exact ⟨hb, (grown_block h hroom hb).1 ▸ hk⟩
    · rw [grown_objectBlocks_self] at hk
      cases hk
  · rintro ⟨hb, hk⟩
    exact ⟨by omega, (grown_block h hroom hb).1.trans hk⟩

/-- Making room keeps the tables consistent. -/
theorem Consistent.grow (hfinal : info.maximum + info.allocationSize ≤ finalIndex) :
    Consistent (grown info fresh) handed where
  __ := h
  maximum := by
    rw [grown_blockCount h]
    change info.maximum + info.allocationSize = (info.blockCount + 1) * info.allocationSize
    rw [Nat.add_one_mul, ← h.maximum]
  final := hfinal
  injective b b' k hb hb' :=
    h.injective b b' k ((grown_holds h hroom b k).1 hb) ((grown_holds h hroom b' k).1 hb')
  ids b k hb := h.ids b k ((grown_holds h hroom b k).1 hb)
  mem o := by
    have hmem := h.mem o
    simp only [grown_holds h hroom]
    exact hmem

end

end Grow

variable [DecidableEq K]

/-- Making room keeps the counters exact. -/
theorem Counted.grow {fresh : Tables K} (hc : Counted info) (h : Consistent info handed)
    (hroom : info.maximum ≠ 1) : Counted (grown info fresh) where
  inactive := hc.inactive
  perBlock hauto b hb := by
    rw [grown_blockCount h] at hb
    rcases Nat.lt_succ_iff_lt_or_eq.1 hb with hb | rfl
    · rw [(grown_block h hroom hb).1, (grown_block h hroom hb).2]
      exact hc.perBlock hauto b hb
    · rw [grown_objectBlocks_self]
      have hzero : (grown info fresh).tables.inactivePerBlock info.blockCount = 0 :=
        update_self ..
      simp [hzero]

variable {o : Control K} {info' : Information K} {w : Workspace K}

section Place

variable {k : K} {block : Nat}

/-- The tables with a new block of objects in a free place. -/
def placed (info : Information K) (k : K) (block : Nat) : Information K :=
  placeBlock info k block (1 + block * info.allocationSize)

/-- The new block is the only one added. -/
theorem placed_holds (hblock : block < info.blockCount)
    (hnone : info.tables.objectBlocks block = none) (b : Nat) (k' : K) :
    (placed info k block).Holds b k' ↔ info.Holds b k' ∨ (b = block ∧ k' = k) := by
  by_cases hb : b = block
  · subst hb
    have hself : (placed info k b).tables.objectBlocks b = some k := update_self ..
    have hcount : (placed info k b).blockCount = info.blockCount := rfl
    simp [Holds, hself, hcount, hblock, hnone, eq_comm]
  · have hother : (placed info k block).tables.objectBlocks b = info.tables.objectBlocks b :=
      update_of_ne hb ..
    have hcount : (placed info k block).blockCount = info.blockCount := rfl
    simp [Holds, hother, hcount, hb]

theorem placed_id_of_ne (ho : o.block ≠ k) :
    (placed info k block).id o = info.id o := by
  simp [placed, placeBlock, ho]

variable (h : Consistent info handed) (hblock : block < info.blockCount)
  (hnone : info.tables.objectBlocks block = none)
  (hfresh : ∀ b < info.blockCount, info.tables.objectBlocks b ≠ some k)
include h hfresh

omit [DecidableEq K] in
/-- No object of the class lies in the new block. -/
theorem block_ne_of_mem (ho : o ∈ info.chain ++ handed) : o.block ≠ k := by
  rintro rfl
  obtain ⟨⟨b, hb⟩, -⟩ := (h.mem o).1 ho
  exact hfresh b hb.1 hb.2

include hblock hnone

/-- Entering a block of objects keeps the tables consistent. -/
theorem Consistent.place : Consistent (placed info k block) handed where
  __ := h
  injective b b' k' hb hb' := by
    rcases (placed_holds hblock hnone b k').1 hb with hold | ⟨rfl, rfl⟩ <;>
      rcases (placed_holds hblock hnone b' k').1 hb' with hold' | ⟨rfl, hk⟩
    · exact h.injective b b' k' hold hold'
    · exact absurd (hk ▸ hold.2) (hfresh b hold.1)
    · exact absurd hold'.2 (hfresh b' hold'.1)
    · rfl
  ids b k' hb slot hslot := by
    rcases (placed_holds hblock hnone b k').1 hb with hold | ⟨rfl, rfl⟩
    · have hne : k' ≠ k := by
        rintro rfl
        exact hfresh b hold.1 hold.2
      rw [placed_id_of_ne hne]
      exact h.ids b k' hold slot hslot
    · exact if_pos ⟨rfl, hslot⟩
  nodup := by
    have hperm : ((placed info k block).chain ++ handed).Perm
        ((List.range info.allocationSize).map (Control.mk k) ++ (info.chain ++ handed)) := by
      rw [← List.append_assoc]
      exact List.perm_append_comm.append_right _
    have hinj : Function.Injective (Control.mk k) := fun i j hij => (Control.mk.inj hij).2
    rw [hperm.nodup_iff, List.nodup_append]
    refine ⟨List.nodup_range.map hinj, h.nodup, ?_⟩
    rintro _ ho o' ho' rfl
    obtain ⟨slot, -, rfl⟩ := List.mem_map.1 ho
    exact block_ne_of_mem h hfresh ho' rfl
  mem o := by
    have hmem : o ∈ (placed info k block).chain ++ handed ↔
        o ∈ info.chain ++ handed ∨ (o.block = k ∧ o.slot < info.allocationSize) := by
      cases o with
      | mk k' slot =>
        simp only [placed, placeBlock, List.mem_append, List.mem_map, List.mem_range,
          Control.mk.injEq]
        grind
    rw [hmem, h.mem]
    simp only [placed_holds hblock hnone]
    change _ ↔ _ ∧ o.slot < info.allocationSize
    grind

/-- Entering a block of objects keeps the counters exact. -/
theorem Counted.place (hc : Counted info) : Counted (placed info k block) where
  inactive hauto := by
    change info.inactive + info.allocationSize = (info.chain ++ _).length
    rw [hc.inactive hauto, List.length_append, List.length_map, List.length_range]
  perBlock hauto b hb := by
    change _ = (info.chain ++ _).countP _
    rw [List.countP_append]
    by_cases hbb : b = block
    · subst hbb
      have hself : (placed info k b).tables.objectBlocks b = some k := update_self ..
      have hcount : (placed info k b).tables.inactivePerBlock b = info.allocationSize :=
        update_self ..
      have hold : info.chain.countP (fun o => some k = some o.block) = 0 := by
        rw [List.countP_eq_zero]
        intro o ho
        have := block_ne_of_mem h hfresh (List.mem_append_left _ ho)
        simp [this.symm]
      rw [hself, hcount, hold]
      simp [List.countP_map, Function.comp_def]
    · have hother : (placed info k block).tables.objectBlocks b = info.tables.objectBlocks b :=
        update_of_ne hbb ..
      have hcount : (placed info k block).tables.inactivePerBlock b =
          info.tables.inactivePerBlock b := update_of_ne hbb ..
      rw [hother, hcount, hc.perBlock hauto b hb]
      have hnew := hfresh b hb
      simp [List.countP_map, Function.comp_def, hnew]

end Place

/-- The tables are consistent, the counters are exact and every open object is entered. -/
structure Sound (info : Information K) (handed opened : List (Control K)) : Prop where
  consistent : Consistent info handed
  counted : Counted info
  entered : Entered info handed opened

/-- Making room keeps the tables sound. -/
theorem Sound.grow {fresh : Tables K} (h : Sound info handed opened) (hroom : info.maximum ≠ 1)
    (hfinal : info.maximum + info.allocationSize ≤ finalIndex) :
    Sound (grown info fresh) handed opened where
  consistent := h.consistent.grow hroom hfinal
  counted := h.counted.grow h.consistent hroom
  entered o ho := by
    obtain ⟨hmem, hentry⟩ := h.entered o ho
    obtain ⟨hpos, hle⟩ := h.consistent.index_le (List.mem_append_right _ hmem)
    exact ⟨hmem, (grown_localTable h.consistent hroom hpos hle).trans hentry⟩

/-- Entering a block of objects keeps the tables sound. -/
theorem Sound.place {k : K} {block : Nat} (h : Sound info handed opened)
    (hblock : block < info.blockCount) (hnone : info.tables.objectBlocks block = none)
    (hfresh : ∀ b < info.blockCount, info.tables.objectBlocks b ≠ some k) :
    Sound (placed info k block) handed opened where
  consistent := h.consistent.place hblock hnone hfresh
  counted := Counted.place h.consistent hblock hnone hfresh h.counted
  entered o ho := by
    obtain ⟨hmem, hentry⟩ := h.entered o ho
    have hne := block_ne_of_mem h.consistent hfresh (List.mem_append_right _ hmem)
    have hindex : (placed info k block).index o = info.index o :=
      congrArg getIndex (placed_id_of_ne hne)
    exact ⟨hmem, hindex.symm ▸ hentry⟩

omit [DecidableEq K] in
/-- The block found for an extension is free or one past the table. -/
theorem freeBlock_cases (info : Information K) :
    (info.freeBlock < info.blockCount ∧ info.tables.objectBlocks info.freeBlock = none) ∨
      info.freeBlock = info.blockCount := by
  unfold freeBlock
  cases hfind : (List.range info.blockCount).find?
      fun b => (info.tables.objectBlocks b).isNone with
  | none => exact .inr rfl
  | some b =>
    have hmem := List.mem_of_find?_eq_some hfind
    have hnone := List.find?_some hfind
    exact .inl ⟨List.mem_range.1 hmem, Option.isNone_iff_eq_none.1 hnone⟩

/-- An extension does nothing, uses a free block or makes room for a block. -/
theorem extendInformation_cases
    (h : Consistent info handed) (hext : extendInformation info w = some info') :
    info' = info ∨
    (∃ k, w.objects = some k ∧ info.freeBlock < info.blockCount ∧
      info.tables.objectBlocks info.freeBlock = none ∧
      info' = placed info k info.freeBlock) ∨
    (∃ k fresh, w.objects = some k ∧ w.tables = some fresh ∧
      info.maximum + info.allocationSize ≤ finalIndex ∧
      info' = placed (grown info fresh) k info.blockCount) := by
  simp only [extendInformation, h.minimumIndex_eq] at hext
  split at hext
  · exact .inl (Option.some.inj hext).symm
  rename_i hfinal
  cases hobjects : w.objects with
  | none =>
    rw [hobjects] at hext
    simp only at hext
    split at hext
    · exact .inl (Option.some.inj hext).symm
    · cases hext
  | some k =>
    rw [hobjects] at hext
    simp only at hext
    rcases freeBlock_cases info with ⟨hlt, hnone⟩ | hend
    · rw [if_pos hlt] at hext
      exact .inr (.inl ⟨k, rfl, hlt, hnone, (Option.some.inj hext).symm⟩)
    · rw [if_neg (by omega), hend] at hext
      cases htables : w.tables with
      | none =>
        rw [htables] at hext
        simp only at hext
        split at hext
        · exact .inl (Option.some.inj hext).symm
        · cases hext
      | some fresh =>
        rw [htables] at hext
        exact .inr (.inr ⟨k, fresh, rfl, rfl, by omega, (Option.some.inj hext).symm⟩)

/-- An auto-extending class is extended without a fatal error. -/
theorem extendInformation_progress (hauto : info.autoExtend = true) (w : Workspace K) :
    ∃ info', extendInformation info w = some info' := by
  simp only [extendInformation, hauto, if_true]
  split
  · exact ⟨_, rfl⟩
  · cases w.objects with
    | none => exact ⟨_, rfl⟩
    | some k =>
      simp only
      split
      · exact ⟨_, rfl⟩
      · cases w.tables with
        | none => exact ⟨_, rfl⟩
        | some fresh => exact ⟨_, rfl⟩

/-- An extension keeps the tables sound unless it copies tables of exactly one index. -/
theorem Sound.extend (h : Sound info handed opened)
    (hfresh : ∀ b < info.blockCount, ∀ k ∈ w.objects, info.tables.objectBlocks b ≠ some k)
    (hroom : w.objects.isSome → w.tables.isSome → info.maximum ≠ 1)
    (hext : extendInformation info w = some info') : Sound info' handed opened := by
  rcases extendInformation_cases h.consistent hext with rfl | ⟨k, hk, hlt, hnone, rfl⟩ |
    ⟨k, fresh, hk, ht, hfinal, rfl⟩
  · exact h
  · exact h.place hlt hnone fun b hb => hfresh b hb k hk
  · have hne : info.maximum ≠ 1 := hroom (by simp [hk]) (by simp [ht])
    have hcount : (grown info fresh).blockCount = info.blockCount + 1 :=
      grown_blockCount h.consistent
    apply (h.grow hne hfinal).place (by omega) grown_objectBlocks_self
    intro b hb hblock
    have hold := (grown_holds h.consistent hne b k).1 ⟨hb, hblock⟩
    exact hfresh b hold.1 k hk hold.2

end Rtems.Objects
