import Rtems.Models.Objects.Extend

/-!
# Calls on a class of objects

Taking an object from the inactive chain, returning it, freeing a block of inactive objects,
and opening and closing objects keep the tables sound; hence every safe call does.
-/

namespace Rtems.Objects

open Function Information

variable {K : Type} [DecidableEq K] {info : Information K} {handed opened : List (Control K)}
  {o : Control K}

theorem countP_block (h : Consistent info handed)
    (ho : o ∈ info.chain ++ handed) {b : Nat} (hb : b < info.blockCount) :
    [o].countP (fun o => info.tables.objectBlocks b = some o.block) =
      if b = info.blockOf o then 1 else 0 := by
  simp [List.countP_cons, h.block_iff ho hb]

section Take

/-- The tables after the first object of the chain is taken. -/
def taken (info : Information K) (o : Control K) (rest : List (Control K)) : Information K :=
  if info.autoExtend then countTaken { info with chain := rest } o
  else { info with chain := rest }

variable {rest : List (Control K)}

/-- Taking an object keeps the counters exact. -/
theorem Counted.take (hc : Counted info) (h : Consistent info handed)
    (hchain : info.chain = o :: rest) : Counted (taken info o rest) := by
  cases hauto : info.autoExtend with
  | false =>
    have hfalse : (taken info o rest).autoExtend = false := by simp [taken, hauto]
    constructor <;> simp [hfalse]
  | true =>
    have htaken : taken info o rest = countTaken { info with chain := rest } o := by
      simp [taken, hauto]
    rw [htaken]
    constructor
    · intro _
      change info.inactive - 1 = rest.length
      rw [hc.inactive hauto, hchain, List.length_cons, Nat.add_sub_cancel]
    · intro _ b hb
      have hmem : o ∈ info.chain ++ handed := by simp [hchain]
      have hold := hc.perBlock hauto b hb
      rw [hchain, ← List.singleton_append, List.countP_append, countP_block h hmem hb] at hold
      by_cases hbo : b = info.blockOf o
      · subst hbo
        have hnew : (countTaken { info with chain := rest } o).tables.inactivePerBlock
            (info.blockOf o) = info.tables.inactivePerBlock (info.blockOf o) - 1 :=
          update_self ..
        rw [hnew, hold, if_pos rfl]
        exact Nat.add_sub_cancel_left ..
      · have hnew : (countTaken { info with chain := rest } o).tables.inactivePerBlock b =
            info.tables.inactivePerBlock b := update_of_ne hbo ..
        rw [hnew, hold, if_neg hbo, Nat.zero_add]
        rfl

/-- Handing out the first object of the chain keeps the tables sound. -/
theorem Sound.take (h : Sound info handed opened) (hchain : info.chain = o :: rest) :
    Sound (taken info o rest) (handed ++ [o]) opened where
  consistent := by
    have hperm : (rest ++ (handed ++ [o])).Perm (info.chain ++ handed) := by
      rw [hchain, ← List.append_assoc]
      exact List.perm_append_singleton o (rest ++ handed)
    apply h.consistent.rearrange
    · unfold taken
      split <;> rfl
    · unfold taken
      split <;> exact hperm
  counted := h.counted.take h.consistent hchain
  entered p hp := by
    obtain ⟨hmem, hentry⟩ := h.entered p hp
    refine ⟨List.mem_append_left _ hmem, ?_⟩
    unfold taken
    split <;> exact hentry

end Take

variable {info' : Information K} {w : Workspace K}

/-- An extension keeps the kind of the class. -/
theorem extendInformation_autoExtend
    (hext : extendInformation info w = some info') : info'.autoExtend = info.autoExtend := by
  simp only [extendInformation] at hext
  split at hext
  · cases hext
    rfl
  · split at hext
    · split at hext <;> cases hext
      rfl
    · split at hext
      · cases hext
        rfl
      · split at hext
        · split at hext <;> cases hext
          rfl
        · cases hext
          rfl

variable {r : Option (Control K)} {entry : Option (Control K)}

/-- An allocation fails, possibly after an extension, or hands out the first object of the
chain, which an extension may have filled. -/
theorem allocateUnprotected_cases (halloc : allocateUnprotected info w = some (r, info')) :
    ∃ mid, (mid = info ∨
        (info.autoExtend = true ∧ info.chain = [] ∧ extendInformation info w = some mid)) ∧
      ((r = none ∧ info' = mid) ∨
        ∃ o rest, r = some o ∧ mid.chain = o :: rest ∧ info' = taken mid o rest) := by
  unfold allocateUnprotected at halloc
  split at halloc
  · cases halloc
    exact ⟨info, .inl rfl, .inl ⟨rfl, rfl⟩⟩
  cases hauto : info.autoExtend with
  | false =>
    rw [hauto] at halloc
    cases hchain : info.chain with
    | nil =>
      simp [getInactive, hchain] at halloc
      exact ⟨info, .inl rfl, .inl ⟨halloc.1.symm, halloc.2.symm⟩⟩
    | cons o rest =>
      simp [getInactive, hchain] at halloc
      refine ⟨info, .inl rfl, .inr ⟨o, rest, halloc.1.symm, hchain, ?_⟩⟩
      rw [← halloc.2, taken, hauto]
      rfl
  | true =>
    rw [hauto] at halloc
    cases hchain : info.chain with
    | cons o rest =>
      simp [getInactive, hchain] at halloc
      refine ⟨info, .inl rfl, .inr ⟨o, rest, halloc.1.symm, hchain, ?_⟩⟩
      rw [← halloc.2, taken, hauto]
      rfl
    | nil =>
      obtain ⟨mid, hmid⟩ := extendInformation_progress hauto w
      have hkind := (extendInformation_autoExtend hmid).trans hauto
      refine ⟨mid, .inr ⟨rfl, rfl, hmid⟩, ?_⟩
      cases hnext : mid.chain with
      | nil =>
        simp [getInactive, hchain, hmid, hnext] at halloc
        exact .inl ⟨halloc.1.symm, halloc.2.symm⟩
      | cons o rest =>
        simp [getInactive, hchain, hmid, hnext] at halloc
        refine .inr ⟨o, rest, halloc.1.symm, rfl, ?_⟩
        rw [← halloc.2, taken, hkind]
        rfl

/-- An allocation returns. -/
theorem allocateUnprotected_progress (info : Information K) (w : Workspace K) :
    ∃ r info', allocateUnprotected info w = some (r, info') := by
  unfold allocateUnprotected
  split
  · exact ⟨_, _, rfl⟩
  cases hauto : info.autoExtend with
  | false => exact ⟨_, _, rfl⟩
  | true =>
    obtain ⟨mid, hmid⟩ := extendInformation_progress hauto w
    cases hchain : info.chain with
    | cons o rest => simp [getInactive, hchain]
    | nil => cases hnext : mid.chain <;> simp [getInactive, hchain, hmid, hnext]

/-- A safe allocation keeps the tables sound. -/
theorem Sound.allocate (h : Sound info handed opened)
    (hfresh : ∀ b < info.blockCount, ∀ k ∈ w.objects, info.tables.objectBlocks b ≠ some k)
    (hroom : ¬ ExtendsSingleton info w)
    (halloc : allocateUnprotected info w = some (r, info')) :
    Sound info' (handed ++ r.toList) opened := by
  obtain ⟨mid, hmid, hresult⟩ := allocateUnprotected_cases halloc
  have hsound : Sound mid handed opened := by
    rcases hmid with rfl | ⟨hauto, hchain, hext⟩
    · exact h
    · apply h.extend hfresh _ hext
      intro hobjects htables hone
      have hsize : info.allocationSize = 1 :=
        Nat.eq_one_of_dvd_one (hone ▸ ⟨_, h.consistent.maximum.trans (Nat.mul_comm ..)⟩)
      exact hroom ⟨hauto, hsize, hone, hchain, hobjects, htables⟩
  rcases hresult with ⟨rfl, rfl⟩ | ⟨o, rest, rfl, hchain, rfl⟩
  · simpa using hsound
  · exact hsound.take hchain

section Put

omit [DecidableEq K] in
/-- Returning an object keeps the blocks. -/
theorem putInactive_objectBlocks :
    (putInactive info o).tables.objectBlocks = info.tables.objectBlocks := by
  unfold putInactive
  split <;> rfl

/-- Returning an object keeps the counters exact. -/
theorem Counted.put (hc : Counted info) (h : Consistent info handed) (ho : o ∈ handed) :
    Counted (putInactive info o) where
  inactive hauto := by
    have hnew : (putInactive info o).inactive = info.inactive + 1 := if_pos hauto
    rw [hnew, hc.inactive hauto]
    change _ = (info.chain ++ [o]).length
    rw [List.length_append, List.length_singleton]
  perBlock hauto b hb := by
    have hchain : (putInactive info o).chain = info.chain ++ [o] := rfl
    have htables : (putInactive info o).tables = _ := if_pos hauto
    rw [putInactive_objectBlocks, htables, hchain, List.countP_append,
      countP_block h (List.mem_append_right _ ho) hb, ← hc.perBlock hauto b hb]
    dsimp only
    by_cases hbo : b = info.blockOf o
    · subst hbo
      rw [update_self, if_pos rfl]
    · rw [update_of_ne hbo, if_neg hbo, Nat.add_zero]

/-- Returning a closed object keeps the tables sound. -/
theorem Sound.put (h : Sound info handed opened) (ho : o ∈ handed) (hclosed : o ∉ opened) :
    Sound (putInactive info o) (handed.erase o) opened where
  consistent := by
    apply h.consistent.rearrange
    · rw [← putInactive_objectBlocks]
      rfl
    · change (info.chain ++ [o] ++ handed.erase o).Perm _
      rw [List.append_assoc]
      exact (List.perm_cons_erase ho).symm.append_left _
  counted := h.counted.put h.consistent ho
  entered p hp := by
    obtain ⟨hmem, hentry⟩ := h.entered p hp
    have hne : p ≠ o := by
      rintro rfl
      exact hclosed hp
    refine ⟨(List.mem_erase_of_ne hne).2 hmem, ?_⟩
    unfold putInactive
    split <;> exact hentry

end Put

section Evict

variable {b : Nat} {k : K}

/-- The tables after the objects of an inactive block are freed. -/
def evicted (info : Information K) (b : Nat) (k : K) : Information K :=
  { info with
    chain := info.chain.filter fun o => o.block ≠ k
    tables :=
      { info.tables with
        objectBlocks := Function.update info.tables.objectBlocks b none
        inactivePerBlock := Function.update info.tables.inactivePerBlock b 0 }
    inactive := info.inactive - info.allocationSize }

/-- Only the evicted block leaves the table. -/
theorem evicted_holds (h : Consistent info handed) (hb : info.Holds b k) (b' : Nat) (k' : K) :
    (evicted info b k).Holds b' k' ↔ info.Holds b' k' ∧ k' ≠ k := by
  have hcount : (evicted info b k).blockCount = info.blockCount := rfl
  by_cases hbb : b' = b
  · subst hbb
    have hself : (evicted info b' k).tables.objectBlocks b' = none := update_self ..
    simp only [Holds, hself, hcount, hb.2, Option.some.injEq]
    grind
  · have hother : (evicted info b k).tables.objectBlocks b' = info.tables.objectBlocks b' :=
      update_of_ne hbb ..
    have hne : info.Holds b' k' → k' ≠ k := by
      rintro hb' rfl
      exact hbb (h.injective b' b k' hb' hb)
    simp only [Holds, hother, hcount] at hne ⊢
    grind

/-- A block whose objects are all inactive has none handed out. -/
theorem block_ne_of_handed (h : Consistent info handed) (hc : Counted info)
    (hauto : info.autoExtend = true) (hb : info.Holds b k)
    (hall : info.tables.inactivePerBlock b = info.allocationSize)
    (ho : o ∈ handed) : o.block ≠ k := by
  intro hblock
  have hcount := hc.perBlock hauto b hb.1
  rw [hall, hb.2, List.countP_eq_length_filter] at hcount
  have hsub : o :: info.chain.filter (fun o => some k = some o.block) ⊆
      (List.range info.allocationSize).map (Control.mk k) := by
    intro p hp
    have hp' : p ∈ info.chain ++ handed ∧ p.block = k := by
      rcases List.mem_cons.1 hp with rfl | hp
      · exact ⟨List.mem_append_right _ ho, hblock⟩
      · obtain ⟨hmem, heq⟩ := List.mem_filter.1 hp
        exact ⟨List.mem_append_left _ hmem, (Option.some.inj (of_decide_eq_true heq)).symm⟩
    have hslot := ((h.mem p).1 hp'.1).2
    exact List.mem_map.2 ⟨p.slot, List.mem_range.2 hslot, by rw [← hp'.2]⟩
  have hnodup : (o :: info.chain.filter (fun o => some k = some o.block)).Nodup := by
    obtain ⟨hchain, -, hdisjoint⟩ := List.nodup_append.1 h.nodup
    refine List.nodup_cons.2 ⟨?_, hchain.filter _⟩
    intro hmem
    exact hdisjoint o (List.mem_filter.1 hmem).1 o ho rfl
  have hlength := (List.subperm_of_subset hnodup hsub).length_le
  rw [List.length_cons, List.length_map, List.length_range] at hlength
  omega

variable (h : Consistent info handed) (hb : info.Holds b k)
include h hb

/-- Freeing an inactive block keeps the tables consistent. -/
theorem Consistent.evict (hhanded : ∀ o ∈ handed, o.block ≠ k) :
    Consistent (evicted info b k) handed where
  __ := h
  injective c c' k' hc hc' :=
    h.injective c c' k' ((evicted_holds h hb c k').1 hc).1 ((evicted_holds h hb c' k').1 hc').1
  ids c k' hc := h.ids c k' ((evicted_holds h hb c k').1 hc).1
  nodup := h.nodup.sublist (List.filter_sublist.append_right handed)
  mem o := by
    have hmem : o ∈ (evicted info b k).chain ++ handed ↔
        o ∈ info.chain ++ handed ∧ o.block ≠ k := by
      simp only [evicted, List.mem_append, List.mem_filter, decide_eq_true_eq]
      grind
    rw [hmem, h.mem]
    simp only [evicted_holds h hb]
    change _ ↔ _ ∧ o.slot < info.allocationSize
    grind

/-- Freeing an inactive block keeps the counters exact. -/
theorem Counted.evict (hc : Counted info)
    (hall : info.tables.inactivePerBlock b = info.allocationSize) :
    Counted (evicted info b k) where
  inactive hauto := by
    change info.inactive - info.allocationSize = (info.chain.filter _).length
    have hcount := hc.perBlock hauto b hb.1
    rw [hall, hb.2] at hcount
    have hsplit := List.length_eq_countP_add_countP
      (fun o : Control K => decide (some k = some o.block)) (l := info.chain)
    rw [hc.inactive hauto, hcount, hsplit, Nat.add_sub_cancel_left, List.countP_eq_length_filter]
    simp [eq_comm]
  perBlock hauto c hcount := by
    by_cases hcb : c = b
    · subst hcb
      have hself : (evicted info c k).tables.objectBlocks c = none := update_self ..
      have hzero : (evicted info c k).tables.inactivePerBlock c = 0 := update_self ..
      simp [hself, hzero]
    · have hother : (evicted info b k).tables.objectBlocks c = info.tables.objectBlocks c :=
        update_of_ne hcb ..
      have hkept : (evicted info b k).tables.inactivePerBlock c =
          info.tables.inactivePerBlock c := update_of_ne hcb ..
      rw [hother, hkept, hc.perBlock hauto c hcount]
      change _ = (info.chain.filter _).countP _
      rw [List.countP_filter]
      apply List.countP_congr
      intro o _
      have hne : info.tables.objectBlocks c = some o.block → o.block ≠ k := by
        rintro hblock rfl
        exact hcb (h.injective c b o.block ⟨hcount, hblock⟩ hb)
      simpa using hne

end Evict

theorem Sound.evict {b : Nat} {k : K} (h : Sound info handed opened)
    (hauto : info.autoExtend = true) (hb : info.Holds b k)
    (hall : info.tables.inactivePerBlock b = info.allocationSize) :
    Sound (evicted info b k) handed opened where
  consistent := h.consistent.evict hb fun _ ho =>
    block_ne_of_handed h.consistent h.counted hauto hb hall ho
  counted := Counted.evict h.consistent hb h.counted hall
  entered := h.entered

/-- The indices of a block are those of its slots. -/
theorem slot_mem_block {a b c slot : Nat} (hslot : slot < a) :
    (1 + b * a ≤ 1 + c * a + slot ∧ 1 + c * a + slot < 1 + b * a + a) ↔ b = c := by
  constructor
  · rintro ⟨hle, hlt⟩
    rcases Nat.lt_trichotomy b c with hbc | hbc | hbc
    · have := Nat.mul_le_mul_right a hbc
      rw [Nat.succ_mul] at this
      omega
    · exact hbc
    · have := Nat.mul_le_mul_right a hbc
      rw [Nat.succ_mul] at this
      omega
  · rintro rfl
    omega

section

variable (h : Sound info handed opened)
include h

/-- Shrinking does nothing or frees one inactive block. -/
theorem shrinkInformation_cases (hauto : info.autoExtend = true) :
    shrinkInformation info = info ∨
      ∃ b k, info.Holds b k ∧ info.tables.inactivePerBlock b = info.allocationSize ∧
        shrinkInformation info = evicted info b k := by
  have hcons := h.consistent
  simp only [shrinkInformation, hcons.minimumIndex_eq]
  cases hfind : (List.range ((info.maximum - 1) / info.allocationSize)).find?
      fun b => info.tables.inactivePerBlock b == info.allocationSize with
  | none => exact .inl rfl
  | some b =>
    have hlt : b < info.blockCount := by
      have hrange := List.mem_range.1 (List.mem_of_find?_eq_some hfind)
      have hle : (info.maximum - 1) / info.allocationSize ≤ info.blockCount := by
        rw [Nat.div_le_iff_le_mul_add_pred hcons.one_le, Nat.mul_comm, ← hcons.maximum]
        omega
      omega
    have hbeq := List.find?_some hfind
    have hall : info.tables.inactivePerBlock b = info.allocationSize := beq_iff_eq.1 hbeq
    have hcount := h.counted.perBlock hauto b hlt
    cases hk : info.tables.objectBlocks b with
    | none =>
      have hpos := hcons.one_le
      simp [hk, hall] at hcount
      omega
    | some k =>
      refine .inr ⟨b, k, ⟨hlt, hk⟩, hall, ?_⟩
      have hfilter : (info.chain.filter fun o =>
          decide ¬ (1 + b * info.allocationSize ≤ info.index o ∧
            info.index o < 1 + b * info.allocationSize + info.allocationSize)) =
          info.chain.filter fun o => o.block ≠ k := by
        apply List.filter_congr
        intro o ho
        have hmem : o ∈ info.chain ++ handed := List.mem_append_left _ ho
        obtain ⟨hat, hslot⟩ := hcons.holds_blockOf hmem
        have hblock := hcons.block_iff hmem hlt
        rw [hk, Option.some.injEq, eq_comm] at hblock
        rw [hcons.index_eq hat hslot, decide_eq_decide, slot_mem_block hslot, ← hblock]
      simp only [hfilter]
      rfl

theorem Sound.shrink (hauto : info.autoExtend = true) :
    Sound (shrinkInformation info) handed opened := by
  rcases shrinkInformation_cases h hauto with heq | ⟨b, k, hb, hall, heq⟩
  · rwa [heq]
  · rw [heq]
    exact h.evict hauto hb hall

/-- Freeing a closed object keeps the tables sound. -/
theorem Sound.free (ho : o ∈ handed)
    (hclosed : o ∉ opened) : Sound (free info o) (handed.erase o) opened := by
  have hput := h.put ho hclosed
  unfold Objects.free
  dsimp only
  split
  · rename_i hshrink
    exact hput.shrink hshrink.1
  · exact hput

theorem Sound.setLocalObject {index : Nat} {opened' : List (Control K)}
    (hentered : Entered (setLocalObject info index entry) handed opened') :
    Sound (setLocalObject info index entry) handed opened' where
  consistent := h.consistent.rearrange rfl (.refl _)
  counted := ⟨h.counted.inactive, h.counted.perBlock⟩
  entered := hentered

theorem setLocalObject_of_ne {o p : Control K} (ho : o ∈ handed) (hp : p ∈ opened) (hne : p ≠ o) :
    p ∈ handed ∧
      (setLocalObject info (info.index o) entry).tables.localTable (info.index p) = some p := by
  obtain ⟨hmem, hentry⟩ := h.entered p hp
  have hindex : info.index p ≠ info.index o := fun heq => hne
    (h.consistent.index_injective (List.mem_append_right _ hmem) (List.mem_append_right _ ho) heq)
  exact ⟨hmem, (update_of_ne hindex ..).trans hentry⟩

theorem Sound.objectsOpen (ho : o ∈ handed) :
    Sound (objectsOpen info o) handed (o :: opened) := by
  apply h.setLocalObject
  intro p hp
  by_cases hne : p = o
  · subst hne
    exact ⟨ho, update_self ..⟩
  · exact setLocalObject_of_ne h ho ((List.mem_cons.1 hp).resolve_left hne) hne

theorem Sound.objectsClose (ho : o ∈ opened) :
    Sound (objectsClose info o) handed (opened.filter (· ≠ o)) := by
  apply h.setLocalObject
  intro p hp
  obtain ⟨hmem, hne⟩ := List.mem_filter.1 hp
  exact setLocalObject_of_ne h (h.entered o ho).1 hmem (of_decide_eq_true hne)

end

/-- The tables of a class are sound before its first extension. -/
theorem sound_emptyInformation (c : ObjectClass) :
    Sound (emptyInformation c : Information K) [] [] where
  consistent := {
    one_le := c.one_le
    minimum := rfl
    maximum := by simp [emptyInformation, blockCount]
    final := Nat.zero_le _
    injective := fun _ _ _ hb => absurd hb.1 (Nat.not_lt_zero _)
    ids := fun _ _ hb => absurd hb.1 (Nat.not_lt_zero _)
    nodup := List.nodup_nil
    mem := by
      intro o
      constructor
      · intro ho
        cases ho
      · rintro ⟨⟨b, hb⟩, -⟩
        exact absurd hb.1 (Nat.not_lt_zero _) }
  counted := ⟨fun _ => rfl, fun _ _ hb => absurd hb (Nat.not_lt_zero _)⟩
  entered _ ho := by cases ho

/-- A safe call keeps the tables sound. -/
theorem Sound.step {s t : System K} {op : Op K} (h : Sound s.info s.handed s.opened)
    (hsafe : Safe s op) (hstep : step s op = some t) : Sound t.info t.handed t.opened := by
  obtain ⟨hlegal, hroom⟩ := hsafe
  cases op with
  | allocate w =>
    obtain ⟨r, info', halloc⟩ := allocateUnprotected_progress s.info w
    simp only [Objects.step, halloc, Option.bind_eq_bind, Option.bind_some,
      Option.some.injEq] at hstep
    subst hstep
    exact h.allocate hlegal hroom halloc
  | objectsOpen o =>
    cases hstep
    exact h.objectsOpen hlegal
  | objectsClose o =>
    cases hstep
    exact h.objectsClose hlegal
  | free o =>
    cases hstep
    exact h.free hlegal.1 hlegal.2

end Rtems.Objects
