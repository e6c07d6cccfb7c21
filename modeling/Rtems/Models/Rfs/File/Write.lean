import Rtems.Models.Rfs.File.Position

/-!
# Writes

One pass of a write changes one block. The test for the end of the file after it takes a
position inside of a full last block for one past the end, since the offset of a full block
is zero: the file then ends at the position. Otherwise a write leaves the file as long as it
was or as the write reaches, and changes only what it writes.
-/

namespace Rtems.Rfs.File

variable {β : Type} {bs : Nat}

/-- The position `e` lies inside of the last block of a file of `s` bytes, and the block is
full. -/
def InFullLastBlock (bs s e : Nat) : Prop :=
  0 < s ∧ s % bs = 0 ∧ s < e + bs ∧ e < s

instance (bs s e : Nat) : Decidable (InFullLastBlock bs s e) :=
  inferInstanceAs (Decidable (_ ∧ _ ∧ _ ∧ _))

/-- The size of a file of `s` bytes after a write that ends at `e`. -/
def sizeAfter (bs s e : Nat) : Nat :=
  if InFullLastBlock bs s e then e else max s e

variable {bpos : BlockPos} {m : Map β}

/-- Whether a position lies inside of a full last block, by the blocks of the file. -/
theorem inFullLastBlock_iff (hm : m.Valid bs) (hboff : bpos.boff < bs) :
    InFullLastBlock bs (m.bytes bs) (bpos.pos bs) ↔
      m.offset = 0 ∧ m.blocks.length ≠ 0 ∧ bpos.bno = m.blocks.length - 1 ∧ bpos.boff ≠ 0 := by
  constructor
  · rintro ⟨hpos, hmod, hlt, hgt⟩
    have hne : m.blocks.length ≠ 0 := fun h => by rw [bytes_nil h] at hpos; omega
    have hoffset : m.offset = 0 := by
      by_contra hoffset
      rw [bytes_partly hoffset hne, Nat.add_comm, Nat.add_mul_mod_self_right,
        Nat.mod_eq_of_lt hm.offset_lt] at hmod
      exact hoffset hmod
    rw [bytes_full hoffset, ← pred_mul_add bs hne] at hlt hgt
    simp only [BlockPos.pos] at hlt hgt
    have hbno : bpos.bno = m.blocks.length - 1 := by
      rcases Nat.lt_trichotomy bpos.bno (m.blocks.length - 1) with h | h | h
      · have := succ_mul_le bs h
        omega
      · exact h
      · have := succ_mul_le bs h
        omega
    rw [hbno] at hlt hgt
    exact ⟨hoffset, hne, hbno, by omega⟩
  · rintro ⟨hoffset, hne, hbno, hboff'⟩
    have hlast := pred_mul_add bs hne
    refine ⟨?_, ?_, ?_, ?_⟩
    · rw [bytes_full hoffset]
      omega
    · rw [bytes_full hoffset]
      exact Nat.mul_mod_left _ _
    · rw [bytes_full hoffset, BlockPos.pos, hbno]
      omega
    · rw [bytes_full hoffset, BlockPos.pos, hbno]
      omega

/-- What the test for positions past the end decides. -/
theorem isPastEnd_iff (bpos : BlockPos) (size : BlockSize) :
    bpos.isPastEnd size = true ↔ size.count ≤ bpos.bno ∨
      (bpos.bno = size.count - 1 ∧ size.offset < bpos.boff) := by
  simp only [BlockPos.isPastEnd, decide_eq_true_eq, ge_iff_le, gt_iff_lt]
  constructor
  · rintro (⟨-, hzero⟩ | h)
    · exact Or.inl (by omega)
    · exact h
  · exact Or.inr

variable {size : Nat}

theorem advance_bno (bpos : BlockPos) (hsize : bpos.boff + size ≤ bs) :
    (bpos.advance bs size).bno ≤ bpos.bno + 1 ∧
      ((bpos.advance bs size).bno = bpos.bno + 1 → (bpos.advance bs size).boff = 0) := by
  unfold BlockPos.advance
  split
  next => exact ⟨Nat.le_refl _, fun _ => Nat.sub_eq_zero_of_le hsize⟩
  next => exact ⟨Nat.le_succ _, fun h => absurd h (by simp)⟩

/-- The size of the file after the end of a pass that ends at `bpos`. -/
theorem bytes_after_pass (hm : m.Valid bs) (hboff : bpos.boff < bs)
    (hne : m.blocks.length ≠ 0) (hbno : bpos.bno ≤ m.blocks.length)
    (hend : bpos.bno = m.blocks.length → bpos.boff = 0) {blocks : List (Nat → β)}
    (hlength : blocks.length = m.blocks.length) :
    (⟨blocks, if bpos.isPastEnd m.size then bpos.boff else m.offset⟩ : Map β).bytes bs =
      sizeAfter bs (m.bytes bs) (bpos.pos bs) := by
  have hbs : 0 < bs := Nat.zero_lt_of_lt hboff
  have hspecial := inFullLastBlock_iff hm hboff
  unfold sizeAfter
  by_cases hpast : bpos.isPastEnd m.size = true
  · rw [if_pos hpast]
    rcases (isPastEnd_iff _ _).mp hpast with hge | ⟨hbnoLast, hgt⟩
    · have hbnoEq : bpos.bno = m.blocks.length := Nat.le_antisymm hbno hge
      have hnot : ¬ InFullLastBlock bs (m.bytes bs) (bpos.pos bs) := by
        rw [hspecial]
        omega
      have hle := bytes_le hm
      have hpos : bpos.pos bs = m.blocks.length * bs := by
        rw [BlockPos.pos, hbnoEq, hend hbnoEq, Nat.add_zero]
      rw [if_neg hnot, hpos, Nat.max_eq_right hle, hend hbnoEq, bytes_full rfl, hlength]
    · have hbnoLast : bpos.bno = m.blocks.length - 1 := hbnoLast
      have hgt : m.offset < bpos.boff := hgt
      have hboffNe : bpos.boff ≠ 0 := by omega
      have hpos : bpos.pos bs = (m.blocks.length - 1) * bs + bpos.boff := by
        rw [BlockPos.pos, hbnoLast]
      rw [bytes_partly hboffNe (by rw [hlength]; exact hne), hlength, ← hpos]
      by_cases hfull : m.offset = 0
      · rw [if_pos (hspecial.mpr ⟨hfull, hne, hbnoLast, hboffNe⟩)]
      · have hnot : ¬ InFullLastBlock bs (m.bytes bs) (bpos.pos bs) := by
          rw [hspecial]
          exact fun h => hfull h.1
        rw [if_neg hnot, bytes_partly hfull hne, Nat.max_eq_right (by omega)]
  · rw [if_neg hpast]
    have hin : ¬ (m.blocks.length ≤ bpos.bno ∨
        (bpos.bno = m.blocks.length - 1 ∧ m.offset < bpos.boff)) :=
      fun h => hpast ((isPastEnd_iff _ _).mpr h)
    have hnot : ¬ InFullLastBlock bs (m.bytes bs) (bpos.pos bs) := by
      rw [hspecial]
      rintro ⟨hfull, -, hbnoLast, hboffNe⟩
      exact hin (Or.inr ⟨hbnoLast, by omega⟩)
    have hsame : (⟨blocks, m.offset⟩ : Map β).bytes bs = m.bytes bs := by
      simp only [Map.bytes, Map.size, hlength]
    have hle : bpos.pos bs ≤ m.bytes bs := by
      have hreach : (m.blocks.length - 1) * bs < m.bytes bs := lt_bytes hbs hne
      rcases Nat.lt_or_ge bpos.bno (m.blocks.length - 1) with hlt | hge
      · have := succ_mul_le bs hlt
        simp only [BlockPos.pos]
        omega
      · have hbnoLast : bpos.bno = m.blocks.length - 1 := by omega
        by_cases hfull : m.offset = 0
        · rw [BlockPos.pos, hbnoLast]
          omega
        · rw [bytes_partly hfull hne, BlockPos.pos, hbnoLast]
          omega
    rw [if_neg hnot, hsame, Nat.max_eq_left hle]

/-- What the start of a pass provides: a block of the map that a grown map may have, the
size that the pass will lead to, and a buffer with the bytes that the pass does not write. -/
structure Prepared (bs : Nat) (m : Map β) (bpos : BlockPos) (size : Nat) (started : Started β) :
    Prop where
  /-- The rest of the block is available. -/
  available : started.available = bs - bpos.boff
  /-- The block is the one of the position. -/
  index : started.index = bpos.bno
  /-- The map has it. -/
  index_lt : bpos.bno < started.map.blocks.length
  /-- The map is valid. -/
  valid : started.map.Valid bs
  /-- The map is as long as before, or has grown by the block. -/
  grown : started.map.size = m.size ∨
    (started.map.offset = 0 ∧ bpos.bno + 1 = started.map.blocks.length)
  /-- The pass leads to the size it would lead to without growth. -/
  sizeAfter_eq : ∀ e, bpos.pos bs < e → e ≤ bpos.bno * bs + bs →
    sizeAfter bs (started.map.bytes bs) e = sizeAfter bs (m.bytes bs) e
  /-- The other blocks are those of the file. -/
  others : ∀ i, i ≠ bpos.bno → i < m.blocks.length → started.map.blocks[i]? = m.blocks[i]?
  /-- The bytes of the file in the block that the pass does not write are in the buffer. -/
  buffer : ∀ j, j < bs → bpos.bno * bs + j < m.bytes bs → j < bpos.boff ∨ bpos.boff + size ≤ j →
    m.blocks[bpos.bno]?.map (· j) = some (started.buffer j)

theorem sizeAfter_of_le {s e : Nat} (h : s ≤ e) : sizeAfter bs s e = e := by
  unfold sizeAfter
  rw [if_neg (fun hfull => Nat.not_lt.mpr h hfull.2.2.2), Nat.max_eq_right h]

/-- The start of a pass at a position of the file. -/
theorem ioStartWrite_prepared (junk : Nat → Nat → β) (hm : m.Valid bs)
    (hboff : bpos.boff < bs) (hle : bpos.pos bs ≤ m.bytes bs) (count : Nat) :
    Prepared bs m bpos (min count (bs - bpos.boff)) (ioStartWrite bs m bpos count junk) := by
  have hbs : 0 < bs := Nat.zero_lt_of_lt hboff
  unfold ioStartWrite
  rw [find_eq]
  rcases bno_le hm hboff hle with hlt | ⟨heq, hzero, hfull⟩
  · rw [if_pos hlt]
    refine ⟨rfl, rfl, hlt, hm, Or.inl rfl, fun _ _ _ => rfl, fun _ _ _ => rfl, ?_⟩
    intro j hj _ hout
    show m.blocks[bpos.bno]?.map (· j) = some (m.request bpos.bno _ junk j)
    by_cases hread : bpos.boff ≠ 0 ∨ count < bs
    · simp [Map.request, hread, hlt]
    · push Not at hread
      omega
  · rw [if_neg (by omega)]
    have hgrown : (m.grow junk).blocks.length = m.blocks.length + 1 := by simp [Map.grow]
    have hgrownBytes : (m.grow junk).bytes bs = m.blocks.length * bs + bs := by
      rw [bytes_full rfl, hgrown, Nat.succ_mul]
    refine ⟨rfl, heq.symm, by rw [heq, hgrown]; exact Nat.lt_succ_self _,
      ⟨hbs, fun _ => rfl⟩, Or.inr ⟨rfl, by rw [heq, hgrown]⟩, ?_, ?_, ?_⟩
    · intro e hgt hend
      rw [BlockPos.pos, hzero, heq] at hgt
      rw [sizeAfter_of_le (show m.bytes bs ≤ e by omega)]
      show sizeAfter bs ((m.grow junk).bytes bs) e = e
      rw [hgrownBytes]
      rcases Nat.lt_or_ge e (m.blocks.length * bs + bs) with hlt | hge
      · have hmod : (m.blocks.length * bs + bs) % bs = 0 := by simp
        unfold sizeAfter
        rw [if_pos ⟨by omega, hmod, by omega, hlt⟩]
      · exact sizeAfter_of_le hge
    · intro i _ hi
      exact List.getElem?_append_left hi
    · intro j _ hj
      rw [heq, hfull] at hj
      omega

theorem byteAt_mul_add (m : Map β) {q j : Nat} (hj : j < bs) :
    m.byteAt bs (q * bs + j) = m.blocks[q]?.map (· j) := by
  have hbs : 0 < bs := Nat.zero_lt_of_lt hj
  obtain ⟨hdiv, hmod⟩ := (Nat.div_mod_unique hbs (a := q * bs + j) (d := q)).mpr
    ⟨by rw [Nat.add_comm, Nat.mul_comm], hj⟩
  rw [Map.byteAt, hdiv, hmod]

theorem byteAt_set {q : Nat} (hq : q < m.blocks.length) (buffer : Nat → β) (offset p : Nat) :
    (⟨m.blocks.set q buffer, offset⟩ : Map β).byteAt bs p =
      if p / bs = q then some (buffer (p % bs)) else m.byteAt bs p := by
  by_cases hp : p / bs = q
  · rw [if_pos hp, Map.byteAt, hp, List.getElem?_set_self hq]
    rfl
  · rw [if_neg hp, Map.byteAt, Map.byteAt, List.getElem?_set_ne (Ne.symm hp)]

/-- The file of a write in progress: the size that the handles share is that of the map. -/
structure Shared.Valid (bs : Nat) (f : Shared β) : Prop where
  /-- The map is valid. -/
  map : f.map.Valid bs
  /-- The handles share its size. -/
  size : f.size = f.map.size

variable {f : Shared β}
  {started : Started β} {count : Nat}

/-- The end of a prepared pass. -/
theorem ioEndWrite_spec (hf : f.Valid bs) (hboff : bpos.boff < bs)
    (hpos : 0 < size) (hfit : bpos.boff + size ≤ bs)
    (hstarted : Prepared bs f.map bpos size started) (data : Nat → β) :
    ∃ f', ioEndWrite bs { f with map := started.map } started.index
        (copyTo started.buffer bpos.boff data size) bpos size = (f', bpos.advance bs size) ∧
      f'.Valid bs ∧
      f'.map.bytes bs = sizeAfter bs (f.map.bytes bs) (bpos.pos bs + size) ∧
      f'.map.blocks = started.map.blocks.set bpos.bno
        (copyTo started.buffer bpos.boff data size) := by
  obtain ⟨blocks, hblocks⟩ := @exists_eq _
    (started.map.blocks.set bpos.bno (copyTo started.buffer bpos.boff data size))
  have hlength : blocks.length = started.map.blocks.length := by rw [hblocks, List.length_set]
  have hne : started.map.blocks.length ≠ 0 := by have := hstarted.index_lt; omega
  obtain ⟨hbno, hbnoEnd⟩ := advance_bno bpos hfit
  have hboff' := advance_boff_lt hboff hfit
  have hbytes := bytes_after_pass hstarted.valid hboff' hne
    (by have := hstarted.index_lt; omega) (fun h => hbnoEnd (by have := hstarted.index_lt; omega))
    hlength
  rw [advance_pos, hstarted.sizeAfter_eq _ (by omega) (by simp only [BlockPos.pos]; omega)] at hbytes
  simp only [ioEndWrite, hstarted.index, ← hblocks]
  have hsize : (⟨blocks, started.map.offset⟩ : Map β).size = started.map.size := by
    simp only [Map.size, hlength]
  rw [hsize]
  split
  next hpast =>
    rw [if_pos hpast] at hbytes
    refine ⟨_, rfl, ⟨⟨hboff', ?_⟩, rfl⟩, hbytes, rfl⟩
    intro hnil
    rw [show blocks = [] from hnil] at hlength
    exact absurd hlength.symm hne
  next hpast =>
    rw [if_neg hpast] at hbytes
    refine ⟨_, rfl, ⟨⟨hstarted.valid.offset_lt, ?_⟩, ?_⟩, hbytes, rfl⟩
    · intro hnil
      rw [show blocks = [] from hnil] at hlength
      exact absurd hlength.symm hne
    · -- A grown map has its end at the position, which the test does not miss.
      rcases hstarted.grown with hsame | ⟨hoffset, hlast⟩
      · exact hf.size.trans (hsame.symm.trans hsize.symm)
      · refine absurd ((isPastEnd_iff _ _).mpr ?_) hpast
        simp only [Map.size, hoffset]
        unfold BlockPos.advance
        split
        next => exact Or.inl (Nat.le_of_eq hlast.symm)
        next => exact Or.inr ⟨by show bpos.bno = _; omega, by show 0 < bpos.boff + size; omega⟩

/-- The bytes after a prepared pass. -/
theorem byteAt_after_pass (hboff : bpos.boff < bs)
    (hfit : bpos.boff + size ≤ bs)
    (hstarted : Prepared bs m bpos size started) (data : Nat → β) {m' : Map β}
    (hblocks : m'.blocks = started.map.blocks.set bpos.bno
      (copyTo started.buffer bpos.boff data size)) {p : Nat}
    (hp : p < m.bytes bs ∨ (bpos.pos bs ≤ p ∧ p < bpos.pos bs + size)) (hm : m.Valid bs) :
    m'.byteAt bs p = if bpos.pos bs ≤ p ∧ p < bpos.pos bs + size
      then some (data (p - bpos.pos bs)) else m.byteAt bs p := by
  have hbs : 0 < bs := Nat.zero_lt_of_lt hboff
  have hdiv : p / bs * bs + p % bs = p := by rw [Nat.mul_comm]; exact Nat.div_add_mod p bs
  have hmod := Nat.mod_lt p hbs
  have hm' : m' = ⟨started.map.blocks.set bpos.bno
      (copyTo started.buffer bpos.boff data size), m'.offset⟩ := by rw [← hblocks]
  rw [hm', byteAt_set hstarted.index_lt]
  by_cases hblock : p / bs = bpos.bno
  · rw [if_pos hblock]
    rw [hblock] at hdiv
    by_cases hin : bpos.pos bs ≤ p ∧ p < bpos.pos bs + size
    · rw [if_pos hin]
      simp only [BlockPos.pos] at hin ⊢
      rw [copyTo, if_pos ⟨by omega, by omega⟩]
      congr 2
      omega
    · have hout : p % bs < bpos.boff ∨ bpos.boff + size ≤ p % bs := by
        simp only [BlockPos.pos] at hin
        omega
      rw [if_neg hin, copyTo, if_neg (by omega), ← hstarted.buffer _ hmod (by omega) hout,
        ← hdiv, byteAt_mul_add m hmod]
      simp only [hdiv]
  · have hout : ¬ (bpos.pos bs ≤ p ∧ p < bpos.pos bs + size) := by
      rintro ⟨hge, hlt⟩
      simp only [BlockPos.pos] at hge hlt
      apply hblock
      exact Nat.div_eq_of_lt_le (by omega) (by rw [Nat.succ_mul]; omega)
    have hold : p < m.bytes bs := hp.resolve_right hout
    have hlt : p / bs < m.blocks.length := by
      rw [Nat.div_lt_iff_lt_mul hbs]
      exact Nat.lt_of_lt_of_le hold (bytes_le hm)
    rw [if_neg hblock, if_neg hout, Map.byteAt, Map.byteAt, hstarted.others _ hblock hlt]

/-- A pass that ends with its block does not end inside of a full last block. -/
theorem sizeAfter_block_end (s q : Nat) :
    sizeAfter bs s (q * bs) = max s (q * bs) := by
  unfold sizeAfter
  rw [if_neg]
  rintro ⟨-, hmod, hlt, hgt⟩
  have hdiv : s / bs * bs = s := Nat.div_mul_cancel (Nat.dvd_of_mod_eq_zero hmod)
  rw [← hdiv] at hlt hgt
  have hq : q < s / bs := Nat.lt_of_mul_lt_mul_right hgt
  have := succ_mul_le bs hq
  omega

/-- The size after a whole write, from the size after a pass that reached `e`. -/
theorem sizeAfter_max {s e e' : Nat} (h : e ≤ e') :
    sizeAfter bs (max s e) e' = sizeAfter bs s e' := by
  rcases Nat.le_total e s with hle | hge
  · rw [Nat.max_eq_left hle]
  · rw [Nat.max_eq_right hge, sizeAfter_of_le h, sizeAfter_of_le (Nat.le_trans hge h)]

section

variable (junk : Nat → Nat → β) (hf : f.Valid bs) (hboff : bpos.boff < bs)
  (hle : bpos.pos bs ≤ f.map.bytes bs) (data : Nat → β)
include junk hf hboff hle data

/-- One pass of a write: it reaches the end of the data or of the block. -/
theorem writePass_spec (hcount : 0 < count) :
    ∃ f' size, writePass bs junk f bpos data count = (f', bpos.advance bs size, size) ∧
      0 < size ∧ size ≤ count ∧ bpos.boff + size ≤ bs ∧
      (size = count ∨ bpos.boff + size = bs) ∧ f'.Valid bs ∧
      f'.map.bytes bs = sizeAfter bs (f.map.bytes bs) (bpos.pos bs + size) ∧
      ∀ p, p < f.map.bytes bs ∨ (bpos.pos bs ≤ p ∧ p < bpos.pos bs + size) →
        f'.map.byteAt bs p = if bpos.pos bs ≤ p ∧ p < bpos.pos bs + size
          then some (data (p - bpos.pos bs)) else f.map.byteAt bs p := by
  have hstarted := ioStartWrite_prepared junk hf.map hboff hle count
  obtain ⟨size, hsize⟩ := @exists_eq _ (min count (bs - bpos.boff))
  rw [← hsize] at hstarted
  have hchosen : (if (ioStartWrite bs f.map bpos count junk).available > count then count
      else (ioStartWrite bs f.map bpos count junk).available) = size := by
    rw [hstarted.available, hsize]
    split <;> omega
  have hfit : bpos.boff + size ≤ bs := by omega
  obtain ⟨f', hend, hvalid, hbytes, hblocks⟩ :=
    ioEndWrite_spec hf hboff (by omega) hfit hstarted data
  refine ⟨f', size, ?_, by omega, by omega, hfit, by omega, hvalid, hbytes, ?_⟩
  · simp only [writePass, hchosen, hend]
  · intro p hp
    exact byteAt_after_pass hboff hfit hstarted data hblocks hp hf.map

/-- The loop of a write: it returns for every bound on its passes from the number of bytes
on, and writes the bytes at the position and no others. -/
theorem writeLoop_spec {fuel : Nat}
    (hfuel : count ≤ fuel) :
    ∃ f' bpos', writeLoop bs junk fuel f bpos data count = some (f', bpos') ∧ f'.Valid bs ∧
      bpos'.boff < bs ∧ bpos'.pos bs = bpos.pos bs + count ∧
      f'.map.bytes bs = (if count = 0 then f.map.bytes bs
        else sizeAfter bs (f.map.bytes bs) (bpos.pos bs + count)) ∧
      ∀ p, p < f.map.bytes bs ∨ (bpos.pos bs ≤ p ∧ p < bpos.pos bs + count) →
        f'.map.byteAt bs p = if bpos.pos bs ≤ p ∧ p < bpos.pos bs + count
          then some (data (p - bpos.pos bs)) else f.map.byteAt bs p := by
  induction fuel generalizing count f bpos data with
  | zero =>
    obtain rfl : count = 0 := Nat.le_zero.mp hfuel
    refine ⟨f, bpos, rfl, hf, hboff, rfl, by simp, fun p _ => ?_⟩
    rw [if_neg (by omega)]
  | succ fuel ih =>
    cases count with
    | zero =>
      refine ⟨f, bpos, rfl, hf, hboff, rfl, by simp, fun p _ => ?_⟩
      rw [if_neg (by omega)]
    | succ count =>
      obtain ⟨f₁, size, hpass, hpos, hsize, hfit, hstop, hf₁, hbytes₁, hbyte₁⟩ :=
        writePass_spec junk hf hboff hle data (Nat.succ_pos count)
      have hadvance : (bpos.advance bs size).pos bs = bpos.pos bs + size := advance_pos bpos size
      -- The rest of the data starts where the pass ended, and that is in the file.
      have hreach : bpos.pos bs + size ≤ f₁.map.bytes bs := by
        rw [hbytes₁, sizeAfter]
        split <;> omega
      obtain ⟨f₂, bpos₂, hloop, hf₂, hboff₂, hpos₂, hbytes₂, hbyte₂⟩ :=
        ih hf₁ (advance_boff_lt hboff hfit) (by rw [hadvance]; exact hreach)
          (fun j => data (j + size)) (show count + 1 - size ≤ fuel by omega)
      refine ⟨f₂, bpos₂, ?_, hf₂, hboff₂, by rw [hpos₂, hadvance]; omega, ?_, ?_⟩
      · simp only [writeLoop, hpass, hloop]
      · rw [if_neg (Nat.succ_ne_zero count), hbytes₂, hadvance]
        split
        next hdone => rw [hbytes₁, show size = count + 1 by omega]
        next hmore =>
          have hblock : bpos.pos bs + size = (bpos.bno + 1) * bs := by
            rw [Nat.succ_mul, BlockPos.pos]
            omega
          rw [hbytes₁, hblock, sizeAfter_block_end _ _, sizeAfter_max (by omega), ← hblock]
          congr 1
          omega
      · intro p hp
        rw [hadvance] at hbyte₂
        by_cases hdone : size = count + 1
        · rw [show count + 1 - size = 0 by omega, writeLoop] at hloop
          obtain ⟨rfl, -⟩ := Prod.mk.inj (Option.some.inj hloop)
          rw [← hdone]
          exact hbyte₁ p (by omega)
        · have hblock : bpos.pos bs + size = (bpos.bno + 1) * bs := by
            rw [Nat.succ_mul, BlockPos.pos]
            omega
          have hkept : p < f.map.bytes bs → p < f₁.map.bytes bs := by
            rw [hbytes₁, hblock, sizeAfter_block_end _ _]
            omega
          by_cases hrest : bpos.pos bs + size ≤ p ∧ p < bpos.pos bs + size + (count + 1 - size)
          · rw [hbyte₂ p (Or.inr hrest), if_pos hrest, if_pos (by omega)]
            congr 2
            omega
          · rw [hbyte₂ p (by omega), if_neg hrest, hbyte₁ p (by omega)]
            by_cases hin : bpos.pos bs ≤ p ∧ p < bpos.pos bs + size
            · rw [if_pos hin, if_pos (by omega)]
            · rw [if_neg hin, if_neg (by omega)]

end

end Rtems.Rfs.File
