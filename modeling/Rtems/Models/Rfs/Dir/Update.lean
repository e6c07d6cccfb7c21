import Rtems.Models.Rfs.Dir.Lookup

/-!
# New and deleted entries

A new entry goes behind the entries of the first page with room for it, or to a new page. A
deleted entry is taken out of its page, and a last page without entries is given back.
-/

namespace Rtems.Rfs.Dir

variable {fs : FileSystem}

/-- A page with a new entry. -/
def Page.add (p : Page fs) (e : Entry fs) (h : total p.entries + e.size < fs.blockSize) : Page fs :=
  ⟨p.entries ++ [e], by simpa using h⟩

/-- The page of a new block. -/
def Page.fresh (fs : FileSystem) : Page fs :=
  ⟨[], Nat.zero_lt_of_lt fs.entrySize_lt⟩

section

variable (p : Page fs) (e : Entry fs) (h : total p.entries + e.size < fs.blockSize)
include p e h

theorem overwrite_block :
    overwrite p.block (total p.entries) e.bytes = (p.add e h).block := by
  have hdrop : p.block.drop (total p.entries + e.size) =
      filler fs (total p.entries + e.size) := by
    rw [Page.block, ← List.drop_drop, List.drop_left' (length_encode _), filler, filler,
      List.drop_replicate, Nat.sub_sub]
  rw [overwrite, e.length_bytes, hdrop, Page.block, List.take_left' (length_encode _)]
  simp [Page.block, Page.add]

/-- Adding an entry to the block of a page with room for it. -/
theorem addToBlock_fits :
    addToBlock fs e.name e.ino.toNat p.block = some (.ok (some (p.add e h).block)) := by
  have hsize := e.size_pos
  have hroom : total p.entries < fs.blockSize - entrySize := by omega
  have hfits : e.name.length + entrySize < fs.blockSize - total p.entries := by
    simp only [Entry.size] at h
    omega
  rw [addToBlock, scan_block, scanEntries_none (fun _ _ _ _ => rfl), Nat.zero_add, if_pos hroom,
    ← overwrite_block p e h]
  simp only [Option.bind_some, if_pos hfits, Entry.bytes]

end

/-- Adding an entry to the block of a page without room for it. -/
theorem addToBlock_full (p : Page fs) (e : Entry fs)
    (h : ¬ total p.entries + e.size < fs.blockSize) :
    addToBlock fs e.name e.ino.toNat p.block = some (.ok none) := by
  rw [addToBlock, scan_block, scanEntries_none (fun _ _ _ _ => rfl)]
  by_cases hroom : 0 + total p.entries < fs.blockSize - entrySize
  · have hfull : ¬ e.name.length + entrySize < fs.blockSize - (0 + total p.entries) := by
      simp only [Entry.size] at h
      omega
    simp only [if_pos hroom, Option.bind_some, if_neg hfull]
  · simp only [if_neg hroom, Option.bind_some]

theorem allEntries_add (before after : List (Page fs)) (p : Page fs) (e : Entry fs)
    (h : total p.entries + e.size < fs.blockSize) :
    (allEntries (before ++ p.add e h :: after)).Perm (e :: allEntries (before ++ p :: after)) := by
  simp only [allEntries, List.flatMap_append, List.flatMap_cons, Page.add, List.append_assoc,
    List.singleton_append]
  rw [← List.append_assoc, ← List.append_assoc]
  exact List.perm_middle

theorem block_fresh : (Page.fresh fs).block = List.replicate fs.blockSize 0xff := by
  simp [Page.block, Page.fresh, filler]

/-- A directory that grows takes an entry that fits a block at once, and no other one. -/
theorem addGrow_spec (e : Entry fs) (space : Nat) :
    (∃ pages : List (Page fs), addGrow fs e.name e.ino.toNat space = some (.ok (blocks pages)) ∧
      (allEntries pages).Perm [e]) ∨
    (addGrow fs e.name e.ino.toNat space = some (.error .enospc) ∧
      (space = 0 ∨ fs.blockSize ≤ e.size)) := by
  induction space with
  | zero => exact Or.inr ⟨rfl, Or.inl rfl⟩
  | succ space ih =>
    by_cases hfits : total (Page.fresh fs).entries + e.size < fs.blockSize
    · left
      refine ⟨[(Page.fresh fs).add e hfits], ?_, allEntries_add [] [] _ e hfits⟩
      rw [addGrow, ← block_fresh, addToBlock_fits _ e hfits]
      rfl
    · have hsize : fs.blockSize ≤ e.size := by
        have : total (Page.fresh fs).entries = 0 := rfl
        omega
      right
      have hgrow : addGrow fs e.name e.ino.toNat space = some (.error .enospc) := by
        rcases ih with ⟨pages, -, hperm⟩ | ⟨hgrow, -⟩
        · -- An entry of the new pages is smaller than a block.
          obtain ⟨p, -, he⟩ := List.mem_flatMap.mp (hperm.mem_iff.mpr (List.mem_singleton_self e))
          obtain ⟨es, es', hp⟩ := List.append_of_mem he
          have hlt := p.total_lt
          rw [hp, total_append, total_cons] at hlt
          omega
        · exact hgrow
      refine ⟨?_, Or.inr hsize⟩
      rw [addGrow, ← block_fresh, addToBlock_full _ e hfits]
      simp only [Option.bind_some, hgrow, Option.map_some]
      rfl

/-- `rtems_rfs_dir_add_entry` adds the entry, or there is no space for it. -/
theorem addEntry_spec (e : Entry fs) (space : Nat) (pages : List (Page fs)) :
    (∃ pages', addEntry fs e.name e.ino.toNat space (blocks pages) = some (.ok (blocks pages')) ∧
      (allEntries pages').Perm (e :: allEntries pages)) ∨
    (addEntry fs e.name e.ino.toNat space (blocks pages) = some (.error .enospc) ∧
      (space = 0 ∨ fs.blockSize ≤ e.size)) := by
  induction pages with
  | nil => exact addGrow_spec e space
  | cons p pages ih =>
    have hblocks : blocks (p :: pages) = p.block :: blocks pages := rfl
    by_cases hfits : total p.entries + e.size < fs.blockSize
    · left
      refine ⟨p.add e hfits :: pages, ?_, allEntries_add [] pages p e hfits⟩
      rw [hblocks, addEntry, addToBlock_fits p e hfits]
      rfl
    · rcases ih with ⟨pages', hadd, hperm⟩ | ⟨hadd, hspace⟩
      · left
        refine ⟨p :: pages', ?_, ?_⟩
        · rw [hblocks, addEntry, addToBlock_full p e hfits]
          simp only [Option.bind_some, hadd, Option.map_some]
          rfl
        · exact (hperm.append_left p.entries).trans List.perm_middle
      · right
        refine ⟨?_, hspace⟩
        rw [hblocks, addEntry, addToBlock_full p e hfits]
        simp only [Option.bind_some, hadd, Option.map_some]
        rfl

/-- A page without one of its entries. -/
def Page.del (p : Page fs) {es es' : List (Entry fs)} {e : Entry fs}
    (h : p.entries = es ++ e :: es') : Page fs :=
  ⟨es ++ es', by
    have hlt := p.total_lt
    rw [h, total_append, total_cons] at hlt
    rw [total_append]
    omega⟩

theorem eq_nil_of_total_eq_zero {es : List (Entry fs)} (h : total es = 0) : es = [] := by
  cases es with
  | nil => rfl
  | cons e es =>
    have := e.size_pos
    rw [total_cons] at h
    omega

/-- The pages after an entry was deleted. -/
def delPages (before after : List (Page fs)) (p : Page fs) : List (Page fs) :=
  if p.entries = [] ∧ after = [] then before else before ++ p :: after

section

variable {p : Page fs} {es es' : List (Entry fs)} {e : Entry fs} (h : p.entries = es ++ e :: es')
include h

/-- Taking the bytes of an entry out of its block. -/
theorem compact_block :
    compact p.block (total es) e.size = (p.del h).block := by
  have hlt := p.total_lt
  rw [h, total_append, total_cons] at hlt
  have htake : p.block.take (total es) = encode es := by
    rw [Page.block, h, encode_append, List.append_assoc, List.take_left' (length_encode es)]
  have hdrop : p.block.drop (total es + e.size) =
      encode es' ++ filler fs (total es + (e.size + total es')) := by
    rw [← List.drop_drop, drop_block h, encode_cons, List.append_assoc, e.drop_bytes, total_cons]
  have hfill : filler fs (total es + (e.size + total es')) ++ List.replicate e.size 0xff =
      filler fs (total es + total es') := by
    rw [filler, filler, List.replicate_append_replicate]
    congr 1
    omega
  rw [compact, htake, hdrop, List.append_assoc, List.append_assoc, hfill, ← List.append_assoc]
  simp [Page.block, Page.del]

/-- Whether a deleted entry was the last one of its block. -/
theorem entryLength_after :
    entryLength ((p.del h).block.drop (total es)) = entryEmpty ↔ es' = [] := by
  have hlt := p.total_lt
  have hsize := e.size_pos
  rw [h, total_append, total_cons] at hlt
  rw [drop_block (show (p.del h).entries = es ++ es' from rfl)]
  cases es' with
  | nil =>
    rw [encode_nil, List.nil_append, total_nil, Nat.add_zero,
      entryLength_filler (by simp only [total_nil] at hlt; omega)]
    simp
  | cons e' es' =>
    rw [encode_cons, List.append_assoc, e'.length_field_bytes]
    simp [e'.size_ne_empty]

/-- The walk of a deletion stops at the entry at the offset. -/
theorem scan_del {search : Bool} (hsearch : search = true → es = []) :
    scan fs (delVisit e.ino.toNat search) fs.blockSize
        (p.block.drop (if search then 0 else total es)) (if search then 0 else total es) =
      some (.found (.ok (total es, e.size))) := by
  have hstart : (if search then 0 else total es) = total es := by
    cases search with
    | false => rfl
    | true => rw [hsearch rfl]; rfl
  have hlt := p.total_lt
  rw [h, total_append] at hlt
  rw [hstart, drop_block h, scan_eq _ hlt (Nat.le_add_right _ _), scanEntries, delVisit,
    e.ino_bytes, if_pos rfl]

/-- `rtems_rfs_dir_del_entry` with the inode of an entry and its offset. -/
theorem delEntry_spec {before after : List (Page fs)}
    (hsmall : (before ++ p :: after).length * fs.blockSize ≤ 2 ^ 32) :
    delEntry fs (blocks (before ++ p :: after)) e.ino.toNat
        (.ofNat (before.length * fs.blockSize + total es)) =
      some (.ok (blocks (delPages before after (p.del h)))) := by
  have hlt : total es < fs.blockSize := by
    have hlt := p.total_lt
    rw [h, total_append] at hlt
    omega
  have hbs : 0 < fs.blockSize := Nat.zero_lt_of_lt fs.entrySize_lt
  have hword : (UInt32.ofNat (before.length * fs.blockSize + total es)).toNat =
      before.length * fs.blockSize + total es := by
    refine UInt32.toNat_ofNat_of_lt (lt_of_lt_of_le ?_ hsmall)
    calc before.length * fs.blockSize + total es
        < (before.length + 1) * fs.blockSize := by rw [Nat.succ_mul]; omega
      _ ≤ (before ++ p :: after).length * fs.blockSize :=
          Nat.mul_le_mul_right _ (by rw [List.length_append, List.length_cons]; omega)
  obtain ⟨offset, hoffset⟩ := @exists_eq _ (before.length * fs.blockSize + total es)
  obtain ⟨hdiv, hmod⟩ := (Nat.div_mod_unique hbs (a := offset) (d := before.length)).mpr
    ⟨by rw [hoffset, Nat.add_comm, Nat.mul_comm], hlt⟩
  have hsearch : decide (offset = 0) = true → es = [] := by
    intro hzero
    have hzero : offset = 0 := of_decide_eq_true hzero
    exact eq_nil_of_total_eq_zero (by omega)
  have hlength : (blocks before).length = before.length := List.length_map _
  have hblocks : blocks (before ++ p :: after) = blocks before ++ p.block :: blocks after := by
    simp [blocks]
  have hloop : delLoop fs e.ino.toNat offset (p.block :: blocks after) =
      some (.ok (blocks (delPages [] after (p.del h)))) := by
    simp only [delLoop, hmod, scan_del h hsearch, Option.bind_some, compact_block h,
      entryLength_after h]
    have hcond : (es' = [] ∧ total es = 0 ∧ blocks after = []) ↔
        ((p.del h).entries = [] ∧ after = []) := by
      constructor
      · rintro ⟨hes', hes, hafter⟩
        exact ⟨by simp [Page.del, hes', eq_nil_of_total_eq_zero hes], List.map_eq_nil_iff.mp hafter⟩
      · rintro ⟨hentries, hafter⟩
        obtain ⟨hes, hes'⟩ := List.append_eq_nil_iff.mp hentries
        exact ⟨hes', by rw [hes]; rfl, by rw [hafter]; rfl⟩
    by_cases hempty : (p.del h).entries = [] ∧ after = []
    · rw [if_pos (hcond.mpr hempty), delPages, if_pos hempty]
      rfl
    · rw [if_neg (fun hc => hempty (hcond.mp hc)), delPages, if_neg hempty]
      rfl
  rw [delEntry, hword, ← hoffset, hdiv, hblocks, List.drop_left' hlength, List.take_left' hlength]
  simp only [hloop, Option.map_some]
  unfold delPages
  split
  · simp [Except.map, blocks]
  · simp [Except.map, blocks]

/-- The entries after a deletion. -/
theorem allEntries_del {before after : List (Page fs)} :
    (allEntries (before ++ p :: after)).Perm
      (e :: allEntries (delPages before after (p.del h))) := by
  have hmiddle : allEntries (before ++ p :: after) =
      (allEntries before ++ es) ++ e :: (es' ++ allEntries after) := by
    simp [allEntries, h]
  have hrest : allEntries (delPages before after (p.del h)) =
      (allEntries before ++ es) ++ (es' ++ allEntries after) := by
    unfold delPages
    split
    next hempty =>
      obtain ⟨hentries, rfl⟩ := hempty
      obtain ⟨rfl, rfl⟩ := List.append_eq_nil_iff.mp hentries
      simp [allEntries]
    next => simp [allEntries, Page.del]
  rw [hmiddle, hrest]
  exact List.perm_middle

end

end Rtems.Rfs.Dir
