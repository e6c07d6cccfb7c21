import Rtems.Models.Objects.Operations

/-!
# Every index of a class is accounted for

In every run in which no allocation extends tables of exactly one index, each index is
inactive, handed out or in a freed block, exactly once, and every open object is found by
its identifier. An extension of tables of one index does not copy them: an open object is
then lost.
-/

namespace Rtems.Objects

open Information

variable {K : Type} [DecidableEq K]

/-- What the tables of a class promise its users. -/
structure WellKept (s : System K) : Prop where
  /-- Each index is on the inactive chain, handed out or in a freed block, exactly once. -/
  indices : ∀ i, 1 ≤ i → i ≤ s.info.maximum →
    s.info.chain.countP (fun o => s.info.index o = i) +
      s.handed.countP (fun o => s.info.index o = i) +
      (if s.info.tables.objectBlocks ((i - 1) / s.info.allocationSize) = none then 1 else 0) = 1
  /-- The identifiers of the objects handed out are distinct. -/
  identifiers : (s.handed.map s.info.id).Nodup
  /-- The inactive objects of an auto-extending class are counted. -/
  inactive : s.info.autoExtend = true → s.info.inactive = s.info.chain.length
  /-- The inactive objects of each block of an auto-extending class are counted. -/
  perBlock : s.info.autoExtend = true → ∀ b, b * s.info.allocationSize < s.info.maximum →
    s.info.tables.inactivePerBlock b =
      s.info.chain.countP fun o => (s.info.index o - 1) / s.info.allocationSize = b
  /-- The entry of an open object points to it. -/
  entries : ∀ o ∈ s.opened, s.info.tables.localTable (s.info.index o) = some o
  /-- A look-up of the identifier of an open object finds it. -/
  lookups : ∀ o ∈ s.opened, objectsGet s.info (s.info.id o) = some o
  /-- Every call returns. -/
  progress : ∀ op, ∃ t, step s op = some t

section Sound

variable {info : Information K} {handed opened : List (Control K)}

section

variable (h : Consistent info handed) {i : Nat} (hpos : 1 ≤ i)
include h hpos

omit [DecidableEq K] in
/-- The block of an index is in the table. -/
theorem Consistent.block_lt
    (hle : i ≤ info.maximum) : (i - 1) / info.allocationSize < info.blockCount := by
  rw [Nat.div_lt_iff_lt_mul h.one_le, ← h.maximum]
  omega

omit [DecidableEq K] in
/-- An index belongs to the object at its slot of its block. -/
theorem Consistent.index_eq_iff {o : Control K} (ho : o ∈ info.chain ++ handed) :
    info.index o = i ↔
      info.Holds ((i - 1) / info.allocationSize) o.block ∧
        o.slot = (i - 1) % info.allocationSize := by
  have hone := h.one_le
  have hdiv := Nat.div_add_mod (i - 1) info.allocationSize
  constructor
  · intro hindex
    obtain ⟨hat, hslot⟩ := h.holds_blockOf ho
    have hblock : info.blockOf o = (i - 1) / info.allocationSize := by
      rw [blockOf, hindex, h.minimumIndex_eq]
    rw [h.index_eq hat hslot, hblock, Nat.mul_comm] at hindex
    exact ⟨hblock ▸ hat, by omega⟩
  · rintro ⟨hat, hslot⟩
    have hlt : o.slot < info.allocationSize := hslot ▸ Nat.mod_lt _ hone
    rw [h.index_eq hat hlt, hslot, Nat.mul_comm]
    omega

/-- Each index is accounted for exactly once. -/
theorem Consistent.indices (hle : i ≤ info.maximum) :
    info.chain.countP (fun o => info.index o = i) + handed.countP (fun o => info.index o = i) +
      (if info.tables.objectBlocks ((i - 1) / info.allocationSize) = none then 1 else 0) = 1 := by
  have hlt := h.block_lt hpos hle
  rw [← List.countP_append]
  cases hblock : info.tables.objectBlocks ((i - 1) / info.allocationSize) with
  | none =>
    have hzero : (info.chain ++ handed).countP (fun o => info.index o = i) = 0 := by
      rw [List.countP_eq_zero]
      intro o ho hindex
      have hat := ((h.index_eq_iff hpos ho).1 (of_decide_eq_true hindex)).1
      rw [hat.2] at hblock
      cases hblock
    rw [hzero, if_pos rfl]
  | some k =>
    have hmod := Nat.mod_lt (i - 1) h.one_le
    have hmem : (⟨k, (i - 1) % info.allocationSize⟩ : Control K) ∈ info.chain ++ handed :=
      (h.mem _).2 ⟨⟨_, hlt, hblock⟩, hmod⟩
    have hone : (info.chain ++ handed).countP (fun o => info.index o = i) =
        (info.chain ++ handed).count ⟨k, (i - 1) % info.allocationSize⟩ := by
      apply List.countP_congr
      intro o ho
      rw [decide_eq_true_iff, h.index_eq_iff hpos ho, beq_iff_eq]
      cases o
      simp [Holds, hlt, hblock, eq_comm]
    rw [hone, List.count_eq_one_of_mem h.nodup hmem, if_neg (by simp)]

end

omit [DecidableEq K] in
/-- The identifiers of the objects handed out are distinct. -/
theorem Consistent.identifiers (h : Consistent info handed) : (handed.map info.id).Nodup := by
  rw [List.nodup_map_iff_inj_on (List.nodup_append.1 h.nodup).2.1]
  intro o ho o' ho' heq
  exact h.index_injective (List.mem_append_right _ ho) (List.mem_append_right _ ho')
    (congrArg getIndex heq)

/-- The counter of a block counts the inactive indices of the block. -/
theorem Sound.perBlock (h : Sound info handed opened) (hauto : info.autoExtend = true) {b : Nat}
    (hb : b * info.allocationSize < info.maximum) :
    info.tables.inactivePerBlock b =
      info.chain.countP fun o => (info.index o - 1) / info.allocationSize = b := by
  rw [h.consistent.maximum] at hb
  have hlt : b < info.blockCount := Nat.lt_of_mul_lt_mul_right hb
  rw [h.counted.perBlock hauto b hlt]
  apply List.countP_congr
  intro o ho
  have hblock := h.consistent.block_iff (List.mem_append_left handed ho) hlt
  rw [decide_eq_true_iff, decide_eq_true_iff, hblock, blockOf, h.consistent.minimumIndex_eq,
    eq_comm]

/-- An open object is found by its identifier. -/
theorem Sound.lookup (h : Sound info handed opened) {o : Control K} (ho : o ∈ opened) :
    objectsGet info (info.id o) = some o := by
  obtain ⟨hmem, hentry⟩ := h.entered o ho
  have hmem' := List.mem_append_right info.chain hmem
  obtain ⟨hat, hslot⟩ := h.consistent.holds_blockOf hmem'
  have hindex := h.consistent.index_eq hat hslot
  have hle := (h.consistent.index_le hmem').2
  have hid : info.id o = info.idOf (info.index o) := by
    rw [hindex]
    exact h.consistent.ids _ o.block hat o.slot hslot
  have hposition : (info.id o - info.minimumId + 1).toNat = info.index o := by
    rw [hid, h.consistent.minimum]
    exact lookup_position info (hle.trans h.consistent.final)
  simp only [objectsGet, hposition, if_pos hle]
  exact hentry

end Sound

/-- Sound tables are well kept. -/
theorem Sound.wellKept {s : System K} (h : Sound s.info s.handed s.opened) : WellKept s where
  indices _ hpos hle := h.consistent.indices hpos hle
  identifiers := h.consistent.identifiers
  inactive := h.counted.inactive
  perBlock hauto _ hb := h.perBlock hauto hb
  entries o ho := (h.entered o ho).2
  lookups _ ho := h.lookup ho
  progress op := by
    cases op with
    | allocate w =>
      obtain ⟨r, info', halloc⟩ := allocateUnprotected_progress s.info w
      exact ⟨_, by rw [Objects.step, halloc]; rfl⟩
    | objectsOpen o => exact ⟨_, rfl⟩
    | objectsClose o => exact ⟨_, rfl⟩
    | free o => exact ⟨_, rfl⟩

theorem sound_doInitializeInformation {c : ObjectClass} {w : Workspace K} {info : Information K}
    (hinit : doInitializeInformation c w = some info) : Sound info [] [] := by
  apply (sound_emptyInformation c).extend _ _ hinit
  · intro b hb
    exact absurd hb (Nat.not_lt_zero b)
  · intro _ _ hone
    exact absurd hone.symm (Nat.succ_ne_zero 0)

/-- In every run of safe calls the tables of the class are well kept. -/
theorem object_tables_well_kept {c : ObjectClass} {w : Workspace K} {info : Information K}
    {ops : List (Op K)} {s : System K} (hinit : doInitializeInformation c w = some info)
    (hrun : Run step Safe ⟨info, [], []⟩ ops s) : WellKept s := by
  have hsound := hrun.invariant (fun s => Sound s.info s.handed s.opened)
    (sound_doInitializeInformation hinit) fun _ _ _ h hsafe hstep => h.step hsafe hstep
  exact hsound.wellKept

/-- A workspace that provides the block `k` and cleared tables. -/
private def provides (k : Nat) : Workspace Nat :=
  ⟨some k, some ⟨fun _ => none, fun _ => 0, fun _ => none⟩⟩

/-- A self-extending class with `a` objects per block. -/
private def unlimitedClass (a : Nat) (ha : 1 ≤ a) : ObjectClass :=
  ⟨2, 1, 1, 8, Nat.le_add_left 1 7, a, ha, true⟩

/-- Three blocks of two objects are filled and the second one is freed. -/
private def growAndShrink : List (Op Nat) :=
  [.allocate (provides 1), .objectsOpen ⟨0, 0⟩, .allocate (provides 1), .allocate (provides 1),
    .allocate (provides 2), .allocate (provides 2), .free ⟨1, 0⟩, .free ⟨1, 1⟩, .free ⟨2, 0⟩]

/-- Blocks of two objects: an open object is kept while the tables grow and shrink. -/
theorem object_tables_well_kept_extended :
    ∃ s : System Nat, s.info.maximum = 6 ∧ s.info.tables.objectBlocks 1 = none ∧
      s.opened = [⟨0, 0⟩] ∧ WellKept s := by
  obtain ⟨info, s, hinit, hexec, hmax, hblock, hopened⟩ : ∃ info s,
      doInitializeInformation (unlimitedClass 2 (by decide)) (provides 0) = some info ∧
      exec step Safe ⟨info, [], []⟩ growAndShrink = some s ∧
      s.info.maximum = 6 ∧ s.info.tables.objectBlocks 1 = none ∧ s.opened = [⟨0, 0⟩] :=
    ⟨_, _, rfl, rfl, rfl, rfl, rfl⟩
  exact ⟨s, hmax, hblock, hopened, object_tables_well_kept hinit (.of_exec hexec)⟩

/-- Blocks of one object: the second extension loses the open object of the first block. -/
theorem object_tables_lose_singleton :
    ∃ info s, doInitializeInformation (unlimitedClass 1 (by decide)) (provides 0) = some info ∧
      Run step Legal ⟨info, [], []⟩ [.allocate (provides 1), .objectsOpen ⟨0, 0⟩,
        .allocate (provides 1)] s ∧
      s.opened = [⟨0, 0⟩] ∧ objectsGet s.info (s.info.id ⟨0, 0⟩) = none ∧ ¬ WellKept s := by
  refine ⟨_, _, rfl, .of_exec rfl, rfl, rfl, ?_⟩
  intro hkept
  have hfound := hkept.lookups ⟨0, 0⟩ (List.mem_singleton.2 rfl)
  cases hfound

end Rtems.Objects
