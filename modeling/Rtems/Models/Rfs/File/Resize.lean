import Rtems.Models.Rfs.File.Write

/-!
# Changes of the size

A file grows block by block and its new bytes are zero. A file that shrinks takes the
position of the handle along if the test for the end of the file says so, and that is the
test that takes a position inside of a full last block for one past the end.
-/

namespace Rtems.Rfs.File

variable {β : Type} {bs : Nat} {m : Map β}

theorem length_ne_zero (hm : m.Valid bs) (hpartly : m.offset ≠ 0) :
    m.blocks.length ≠ 0 := by
  intro hzero
  exact hpartly (hm.offset_nil (List.eq_nil_of_length_eq_zero hzero))

theorem pos_getBpos_size (hm : m.Valid bs) :
    m.size.getBpos.pos bs = m.bytes bs := by
  by_cases hoffset : m.offset = 0
  · rw [bytes_full hoffset]
    simp [BlockSize.getBpos, BlockPos.pos, Map.size, hoffset]
  · have hne := length_ne_zero hm hoffset
    rw [bytes_partly hoffset hne]
    simp [BlockSize.getBpos, BlockPos.pos, Map.size, hoffset]

theorem getBpos_size (hm : m.Valid bs) :
    m.size.getBpos = getBpos bs (m.bytes bs) := by
  rw [← pos_getBpos_size hm]
  exact eq_getBpos hm.offset_lt

/-- The map with the block of the end of the file, which may be a new one. -/
def Map.atEnd (m : Map β) (junk : Nat → Nat → β) : Map β :=
  if m.offset = 0 then m.grow junk else m

theorem atEnd_length (junk : Nat → Nat → β) (hm : m.Valid bs) :
    (m.atEnd junk).blocks.length = m.size.getBpos.bno + 1 := by
  by_cases hoffset : m.offset = 0
  · simp [Map.atEnd, Map.grow, BlockSize.getBpos, Map.size, hoffset]
  · have hne := length_ne_zero hm hoffset
    simp only [Map.atEnd, BlockSize.getBpos, Map.size, hoffset, if_false, ne_eq, not_false_iff,
      if_true]
    omega

theorem atEnd_getElem? (junk : Nat → Nat → β) (m : Map β) {i : Nat} (hi : i < m.blocks.length) :
    (m.atEnd junk).blocks[i]? = m.blocks[i]? := by
  unfold Map.atEnd
  split
  next => exact List.getElem?_append_left hi
  next => rfl

theorem find_full (hfull : m.offset = 0) :
    m.find m.size.getBpos = none ∧ m.size.getBpos.bno = m.blocks.length := by
  have hbno : m.size.getBpos.bno = m.blocks.length := by
    simp [BlockSize.getBpos, Map.size, hfull]
  exact ⟨by rw [find_eq, hbno, if_neg (Nat.lt_irrefl _)], hbno⟩

theorem find_partly (hm : m.Valid bs) (hpartly : m.offset ≠ 0) :
    m.find m.size.getBpos = some m.size.getBpos.bno := by
  have hne := length_ne_zero hm hpartly
  have hbno : m.size.getBpos.bno = m.blocks.length - 1 := by
    simp [BlockSize.getBpos, Map.size, hpartly]
  rw [find_eq, if_pos (by omega)]

/-- The size of a file whose last block is used up to `length`. -/
theorem bytes_used {blocks : List (Nat → β)} {bno length : Nat} (hblocks : blocks.length = bno + 1)
    (hpos : 0 < length) (hle : length ≤ bs) :
    (⟨blocks, if length < bs then length else 0⟩ : Map β).bytes bs = bno * bs + length := by
  by_cases hlt : length < bs
  · rw [if_pos hlt, bytes_partly (Nat.pos_iff_ne_zero.mp hpos) (by rw [hblocks]; omega)]
    simp [hblocks]
  · obtain rfl : length = bs := Nat.le_antisymm hle (Nat.le_of_not_lt hlt)
    rw [if_neg hlt, bytes_full rfl]
    simp only [hblocks, Nat.succ_mul]

/-- A file with a partly used last block ends in it. -/
theorem bytes_div (hm : m.Valid bs) (hpartly : m.offset ≠ 0) :
    m.bytes bs / bs = m.blocks.length - 1 ∧
      m.bytes bs = (m.blocks.length - 1) * bs + m.offset := by
  have hbytes := @bytes_partly β bs m hpartly (length_ne_zero hm hpartly)
  have hoffset := hm.offset_lt
  exact ⟨Nat.div_eq_of_lt_le (by omega) (by rw [Nat.succ_mul]; omega), hbytes⟩

/-- The condition for growing in terms of the map. -/
theorem grow_cond_iff (hm : m.Valid bs) {n : Nat} (hgrow : m.bytes bs < n) :
    (bs ∣ m.bytes bs ∨ n < (m.bytes bs / bs + 1) * bs) ↔
      (m.offset ≠ 0 → n - m.bytes bs < bs - m.offset) := by
  by_cases hfull : m.offset = 0
  · have hdvd : bs ∣ m.bytes bs := by
      rw [bytes_full hfull]
      exact Nat.dvd_mul_left ..
    exact ⟨fun _ hne => absurd hfull hne, fun _ => .inl hdvd⟩
  · obtain ⟨hdiv, hbytes⟩ := bytes_div hm hfull
    have hoffset := hm.offset_lt
    have hndvd : ¬bs ∣ m.bytes bs := by
      intro hdvd
      rw [hbytes] at hdvd
      exact Nat.not_dvd_of_pos_of_lt (Nat.pos_of_ne_zero hfull) hoffset
        ((Nat.dvd_add_right (Nat.dvd_mul_left ..)).mp hdvd)
    rw [hdiv, Nat.succ_mul]
    constructor
    · intro h _
      have := h.resolve_left hndvd
      omega
    · intro h
      have := h hfull
      omega

section Grow

variable [Zero β]

theorem growLoop_zero (junk : Nat → Nat → β) (fuel : Nat) (m : Map β) :
    growLoop bs junk fuel m 0 = some m := by
  cases fuel <;> rfl

/-- What a pass of the loop that grows the file leads to. -/
structure Grown (bs : Nat) (m : Map β) (size : Nat) (m' : Map β) : Prop where
  /-- The map is valid. -/
  valid : m'.Valid bs
  /-- The file has grown. -/
  bytes : m'.bytes bs = m.bytes bs + size
  /-- The new bytes are zero. -/
  zero : ∀ p, m.bytes bs ≤ p → p < m.bytes bs + size → m'.byteAt bs p = some 0
  /-- Full blocks are not changed. -/
  full : m.offset = 0 → ∀ p, p < m.bytes bs → m'.byteAt bs p = m.byteAt bs p

section

variable (junk : Nat → Nat → β) (hm : m.Valid bs)
include junk hm

/-- One pass of the loop that grows the file: it reaches the new size or the end of a block. -/
theorem growPass_spec {count : Nat} (hcount : 0 < count) :
    ∃ m' size, growPass bs junk m count = (m', size) ∧ 0 < size ∧ size ≤ count ∧
      (size = count ∨ m'.offset = 0) ∧ Grown bs m size m' := by
  obtain ⟨bpos, hbpos⟩ := @exists_eq _ m.size.getBpos
  have hend : bpos.pos bs = m.bytes bs := by rw [hbpos, pos_getBpos_size hm]
  have hboff : bpos.boff < bs := by rw [hbpos]; exact hm.offset_lt
  have hbs : 0 < bs := Nat.zero_lt_of_lt hboff
  have hlength : (m.atEnd junk).blocks.length = bpos.bno + 1 := by
    rw [hbpos, atEnd_length junk hm]
  obtain ⟨used, hused⟩ := @exists_eq _ (if count < bs - bpos.boff then count + bpos.boff else bs)
  have hrange : bpos.boff < used ∧ used ≤ bs ∧ used - bpos.boff ≤ count ∧
      (used - bpos.boff = count ∨ used = bs) ∧ (count < bs - bpos.boff ↔ used < bs) := by
    rw [hused]
    split <;> omega
  obtain ⟨hlow, hhigh, hshort, hstop, hiff⟩ := hrange
  obtain ⟨buffer, hbuffer⟩ : ∃ buffer, buffer =
    copyTo (({ m.atEnd junk with offset := if used < bs then used else 0 } : Map β).request bpos.bno
      (used < bs) junk) bpos.boff (fun _ => (0 : β)) (used - bpos.boff) := ⟨_, rfl⟩
  have hpass : growPass bs junk m count =
      (⟨(m.atEnd junk).blocks.set bpos.bno buffer, if used < bs then used else 0⟩,
        used - bpos.boff) := by
    rw [growPass]
    by_cases hoffset : m.offset = 0
    · obtain ⟨hfind, hbno⟩ := find_full hoffset
      rw [← hbpos] at hfind hbno
      simp only [← hbpos, hfind, ← hused, Map.atEnd, if_pos hoffset, hbuffer, ← hbno]
      simp only [hiff]
    · have hfind := find_partly hm hoffset
      rw [← hbpos] at hfind
      simp only [← hbpos, hfind, ← hused, Map.atEnd, if_neg hoffset, hbuffer]
      simp only [hiff]
  have hset : ((m.atEnd junk).blocks.set bpos.bno buffer).length = bpos.bno + 1 := by
    rw [List.length_set, hlength]
  have hbytes := bytes_used hset (show 0 < used by omega) hhigh
  refine ⟨_, _, hpass, by omega, hshort, ?_, ⟨?_, ?_⟩, ?_, ?_, ?_⟩
  · rcases hstop with h | h
    · exact Or.inl h
    · right
      show (if used < bs then used else 0) = 0
      rw [if_neg (by omega)]
  · show (if used < bs then used else 0) < bs
    split <;> omega
  · intro hnil
    rw [show (m.atEnd junk).blocks.set bpos.bno buffer = [] from hnil] at hset
    cases hset
  · rw [hbytes, ← hend, BlockPos.pos]
    omega
  · intro p hge hlt
    rw [← hend, BlockPos.pos] at hge hlt
    have hblock : p / bs = bpos.bno :=
      Nat.div_eq_of_lt_le (by omega) (by rw [Nat.succ_mul]; omega)
    have hdiv : bpos.bno * bs + p % bs = p := by
      rw [← hblock, Nat.mul_comm]
      exact Nat.div_add_mod p bs
    rw [byteAt_set (by omega), if_pos hblock, hbuffer, copyTo, if_pos (by omega)]
  · intro hfull p hp
    have hbno : bpos.bno = m.blocks.length := by
      rw [hbpos]
      simp [BlockSize.getBpos, Map.size, hfull]
    have hlt : p / bs < m.blocks.length := by
      rw [Nat.div_lt_iff_lt_mul hbs]
      exact Nat.lt_of_lt_of_le hp (bytes_le hm)
    rw [byteAt_set (by omega), if_neg (by omega), Map.byteAt, Map.byteAt, atEnd_getElem? junk m hlt]

/-- A pass that ends inside of the last block reads it, so the bytes of the file stay. -/
theorem growPass_short (hpartly : m.offset ≠ 0) {count : Nat} (hshort : count < bs - m.offset) :
    (growPass bs junk m count).2 = count ∧
      ∀ p, p < m.bytes bs → (growPass bs junk m count).1.byteAt bs p = m.byteAt bs p := by
  have hne := length_ne_zero hm hpartly
  have hfind := find_partly hm hpartly
  have hbno : m.size.getBpos = ⟨m.blocks.length - 1, m.offset⟩ := by
    simp [BlockSize.getBpos, Map.size, hpartly]
  rw [hbno] at hfind
  simp only [growPass, hbno, hfind, hshort, if_true, decide_true, Map.request]
  refine ⟨by omega, fun p hp => ?_⟩
  rw [byteAt_set (by omega)]
  split
  next hblock =>
    have hlast : m.blocks.length - 1 < m.blocks.length := by omega
    have hdiv := Nat.div_add_mod p bs
    rw [bytes_partly hpartly hne, Nat.mul_comm, ← hblock] at hp
    rw [Map.byteAt, hblock, List.getElem?_eq_getElem hlast, Option.getD_some, copyTo,
      if_neg (by omega), Option.map_some]
  next => rfl

/-- A pass that fills up the last block does not read it, so the bytes of the file in it are
those of the unread buffer. -/
theorem growPass_filling (hpartly : m.offset ≠ 0) {count : Nat} (hlong : bs - m.offset ≤ count) :
    (growPass bs junk m count).1.offset = 0 ∧
      (growPass bs junk m count).1.byteAt bs ((m.blocks.length - 1) * bs) =
        some (junk (m.blocks.length - 1) 0) := by
  have hne := length_ne_zero hm hpartly
  have hfind := find_partly hm hpartly
  have hbs : 0 < bs := Nat.zero_lt_of_lt hm.offset_lt
  have hbno : m.size.getBpos = ⟨m.blocks.length - 1, m.offset⟩ := by
    simp [BlockSize.getBpos, Map.size, hpartly]
  have hshort : ¬count < bs - m.offset := by omega
  rw [hbno] at hfind
  simp only [growPass, hbno, hfind, hshort, if_false, decide_false, Map.request]
  refine ⟨trivial, ?_⟩
  rw [byteAt_set (by omega), Nat.mul_div_cancel _ hbs, if_pos rfl, Nat.mul_mod_left, copyTo,
    if_neg (by omega)]
  rfl

/-- The loop that grows the file: it returns for every bound on its passes from the number of
bytes on. -/
theorem growLoop_spec {count fuel : Nat} (hfuel : count ≤ fuel) :
    ∃ m', growLoop bs junk fuel m count = some m' ∧ Grown bs m count m' := by
  induction fuel generalizing count m with
  | zero =>
    obtain rfl : count = 0 := Nat.le_zero.mp hfuel
    exact ⟨m, rfl, hm, rfl, fun p hge hlt => absurd hlt (by omega), fun _ _ _ => rfl⟩
  | succ fuel ih =>
    cases count with
    | zero => exact ⟨m, rfl, hm, rfl, fun p hge hlt => absurd hlt (by omega), fun _ _ _ => rfl⟩
    | succ count =>
      obtain ⟨m₁, size, hpass, hpos, hsize, hstop, hgrown⟩ :=
        growPass_spec junk hm (Nat.succ_pos count)
      have hleft : count + 1 - size ≤ fuel := by omega
      obtain ⟨m₂, hloop, hrest⟩ := ih hgrown.valid hleft
      have hbytes : m₂.bytes bs = m.bytes bs + (count + 1) := by
        rw [hrest.bytes, hgrown.bytes]
        omega
      -- A pass that is not the last one ends with its block, so the next one keeps its bytes.
      have hkeep : ∀ p, p < m.bytes bs + size → m₂.byteAt bs p = m₁.byteAt bs p := by
        intro p hp
        rcases hstop with hlast | hfull
        · subst hlast
          rw [Nat.sub_self] at hloop
          rw [Option.some.inj ((growLoop_zero junk fuel m₁).symm.trans hloop)]
        · exact hrest.full hfull p (by rw [hgrown.bytes]; exact hp)
      refine ⟨m₂, ?_, hrest.valid, hbytes, ?_, ?_⟩
      · simp only [growLoop, hpass, hloop]
      · intro p hge hlt
        by_cases hp : p < m.bytes bs + size
        · rw [hkeep p hp]
          exact hgrown.zero p hge hp
        · exact hrest.zero p (by rw [hgrown.bytes]; omega) (by rw [hgrown.bytes]; omega)
      · intro hfull p hp
        rw [hkeep p (by omega)]
        exact hgrown.full hfull p hp

end

end Grow

/-- A size is some full blocks and a used part of the last one. -/
theorem size_split (hbs : 0 < bs) {n : Nat} (hn : 0 < n) :
    n = (n - 1) / bs * bs + ((n - 1) % bs + 1) ∧ (n - 1) % bs + 1 ≤ bs ∧
      n % bs = if (n - 1) % bs + 1 < bs then (n - 1) % bs + 1 else 0 := by
  have hdiv := Nat.div_add_mod (n - 1) bs
  have hmod := Nat.mod_lt (n - 1) hbs
  rw [Nat.mul_comm] at hdiv
  have hsplit : n = (n - 1) / bs * bs + ((n - 1) % bs + 1) := by omega
  refine ⟨hsplit, hmod, ?_⟩
  split
  next hlt =>
    calc n % bs = ((n - 1) / bs * bs + ((n - 1) % bs + 1)) % bs := by rw [← hsplit]
      _ = (n - 1) % bs + 1 := by
        rw [Nat.add_comm, Nat.add_mul_mod_self_right, Nat.mod_eq_of_lt hlt]
  next hge =>
    have hfull : n = ((n - 1) / bs + 1) * bs := by
      rw [Nat.succ_mul]
      omega
    rw [hfull]
    exact Nat.mul_mod_left _ _

/-- The file after it has shrunk. -/
theorem shrink_spec (hm : m.Valid bs) {n : Nat} (hn : 0 < n) (hlt : n < m.bytes bs)
    (bpos : BlockPos) :
    ((shrink bs m bpos n).1).Valid bs ∧ ((shrink bs m bpos n).1).bytes bs = n := by
  have hbs : 0 < bs := Nat.zero_lt_of_lt hm.offset_lt
  obtain ⟨hsplit, hle, hoffset⟩ := size_split hbs hn
  have hblock : (n - 1) / bs < m.blocks.length := by
    rw [Nat.div_lt_iff_lt_mul hbs]
    have := bytes_le hm
    omega
  have hlength : (m.blocks.take (m.blocks.length -
      (m.blocks.length - ((n - 1) / bs + 1)))).length = (n - 1) / bs + 1 := by
    rw [List.length_take, Nat.sub_sub_self hblock, Nat.min_eq_left hblock]
  refine ⟨⟨Nat.mod_lt n hbs, ?_⟩, ?_⟩
  · intro hnil
    rw [show m.blocks.take (m.blocks.length - (m.blocks.length - ((n - 1) / bs + 1))) = []
      from hnil] at hlength
    cases hlength
  · show (⟨m.blocks.take _, n % bs⟩ : Map β).bytes bs = n
    rw [hoffset, bytes_used hlength (Nat.succ_pos _) hle]
    exact hsplit.symm

/-- A file that shrinks keeps the position of a handle that is not past its new end, nor
inside of a full last block. -/
theorem shrink_bpos (hm : m.Valid bs) {n : Nat} (hn : 0 < n) (hlt : n < m.bytes bs)
    {o : Nat} (ho : o ≤ n) (hout : ¬ InFullLastBlock bs n o) :
    (shrink bs m (getBpos bs o) n).2 = getBpos bs o := by
  have hbs : 0 < bs := Nat.zero_lt_of_lt hm.offset_lt
  have hboff := getBpos_boff_lt hbs o
  obtain ⟨m', hm'⟩ := @exists_eq _ ((shrink bs m (getBpos bs o) n).1)
  obtain ⟨hvalid, hbytes⟩ := shrink_spec hm hn hlt (getBpos bs o)
  rw [← hm'] at hvalid hbytes
  have hbpos : (shrink bs m (getBpos bs o) n).2 =
      if (getBpos bs o).isPastEnd m'.size then m'.size.getBpos else getBpos bs o := by
    rw [hm']
    rfl
  rw [hbpos]
  split
  next hpast =>
    rcases (isPastEnd_iff _ _).mp hpast with hge | ⟨hlast, hgt⟩
    · have hend : (getBpos bs o).pos bs ≤ m'.bytes bs := by rw [pos_getBpos, hbytes]; exact ho
      have hge : m'.blocks.length ≤ (getBpos bs o).bno := hge
      rcases bno_le hvalid hboff hend with hin | ⟨hbno, hzero, hfull⟩
      · omega
      · have hpos : (getBpos bs o).pos bs = m'.bytes bs := by
          rw [BlockPos.pos, hbno, hzero, hfull]
          rfl
        rw [pos_getBpos] at hpos
        rw [getBpos_size hvalid, hpos]
    · have hlast : (getBpos bs o).bno = m'.blocks.length - 1 := hlast
      have hgt : m'.offset < (getBpos bs o).boff := hgt
      have hne : m'.blocks.length ≠ 0 := by
        intro hzero
        rw [bytes_nil hzero] at hbytes
        omega
      have hpos : (getBpos bs o).pos bs = o := pos_getBpos o
      exfalso
      by_cases hfull : m'.offset = 0
      · apply hout
        rw [← hbytes, ← hpos]
        exact (inFullLastBlock_iff hvalid hboff).mpr ⟨hfull, hne, hlast, by omega⟩
      · rw [BlockPos.pos, hlast] at hpos
        rw [bytes_partly hfull hne] at hbytes
        omega
  next => rfl

/-- `rtems_rfs_file_set_size` returns, the new bytes are zero, and the position of the handle
stays at an offset that is in the file after it, unless the file shrinks to full blocks and
the offset lies inside of the last one. -/
theorem setSize_spec [Zero β] (junk : Nat → Nat → β) {f : Shared β} (hf : f.Valid bs)
    (bpos : BlockPos) (n : Nat) :
    ∃ f' bpos', setSize bs junk f bpos n = some (f', bpos') ∧ f'.Valid bs ∧
      f'.map.bytes bs = n ∧
      (∀ p, f.map.bytes bs ≤ p → p < n → f'.map.byteAt bs p = some 0) ∧
      ∀ o, o ≤ n → bpos = getBpos bs o →
        (n < f.map.bytes bs → ¬ InFullLastBlock bs n o) → bpos' = getBpos bs o := by
  have hsize : f.size.bytes bs = f.map.bytes bs := by rw [hf.size]; rfl
  simp only [setSize, hsize]
  by_cases hsame : f.map.bytes bs = n
  · rw [if_pos hsame]
    exact ⟨f, bpos, rfl, hf, hsame, fun p hge hlt => absurd hlt (by omega), fun o _ h _ => h⟩
  · rw [if_neg hsame]
    by_cases hzero : n = 0
    · rw [if_pos hzero]
      refine ⟨_, _, rfl, ⟨⟨Nat.zero_lt_of_lt hf.map.offset_lt, fun _ => rfl⟩, rfl⟩, ?_, ?_, ?_⟩
      · rw [hzero]
        rfl
      · intro p _ hlt
        omega
      · exact fun o _ h _ => h
    · rw [if_neg hzero]
      by_cases hgrow : f.map.bytes bs < n
      · obtain ⟨m', hloop, hgrown⟩ := growLoop_spec junk hf.map (Nat.le_refl (n - f.map.bytes bs))
        rw [if_pos hgrow, hloop]
        refine ⟨⟨m', m'.size⟩, bpos, rfl, ⟨hgrown.valid, rfl⟩, ?_, ?_, fun o _ h _ => h⟩
        · show m'.bytes bs = n
          rw [hgrown.bytes]
          omega
        · intro p hge hlt
          exact hgrown.zero p hge (by omega)
      · rw [if_neg hgrow]
        have hlt : n < f.map.bytes bs := by omega
        obtain ⟨hvalid, hbytes⟩ := shrink_spec hf.map (Nat.pos_of_ne_zero hzero) hlt bpos
        refine ⟨_, _, rfl, ⟨hvalid, rfl⟩, hbytes, ?_, ?_⟩
        · intro p hge hp
          omega
        · intro o ho hpos hout
          rw [hpos]
          exact shrink_bpos hf.map (Nat.pos_of_ne_zero hzero) hlt ho (hout hlt)

section Growing

variable [Zero β] {f : Shared β} {n : Nat}

/-- The file has grown to a size: its bytes are kept and the new ones are zero. -/
structure GrownTo (bs : Nat) (f : Shared β) (n : Nat) (f' : Shared β) : Prop where
  /-- The file is valid. -/
  valid : f'.Valid bs
  /-- It has the new size. -/
  bytes : f'.map.bytes bs = n
  /-- Its bytes are kept. -/
  kept : ∀ p, p < f.map.bytes bs → f'.map.byteAt bs p = f.map.byteAt bs p
  /-- The new bytes are zero. -/
  zero : ∀ p, f.map.bytes bs ≤ p → p < n → f'.map.byteAt bs p = some 0

/-- A size beyond the end of the file is reached by the loop, whose first pass is written out. -/
theorem setSize_grow (junk : Nat → Nat → β) (hf : f.Valid bs) (bpos : BlockPos)
    (hgrow : f.map.bytes bs < n) :
    ∃ m', setSize bs junk f bpos n = some (⟨m', m'.size⟩, bpos) ∧
      Grown bs f.map (n - f.map.bytes bs) m' ∧
      growLoop bs junk (n - f.map.bytes bs - 1)
        (growPass bs junk f.map (n - f.map.bytes bs)).1
        (n - f.map.bytes bs - (growPass bs junk f.map (n - f.map.bytes bs)).2) = some m' := by
  have hsize : f.size.bytes bs = f.map.bytes bs := by rw [hf.size]; rfl
  obtain ⟨count, hcount⟩ := Nat.exists_eq_succ_of_ne_zero (show n - f.map.bytes bs ≠ 0 by omega)
  obtain ⟨m', hloop, hgrown⟩ := growLoop_spec junk hf.map (Nat.le_refl (count + 1))
  rw [hcount]
  refine ⟨m', ?_, hgrown, hloop⟩
  simp only [setSize, hsize]
  rw [if_neg (by omega), if_neg (by omega), if_pos hgrow, hcount, hloop, Option.map_some]

/-- A file whose partly used last block is filled up has the first byte of an unread buffer
there. -/
theorem setSize_filling (junk : Nat → Nat → β) (hf : f.Valid bs) (bpos : BlockPos)
    (hgrow : f.map.bytes bs < n) (hpartly : f.map.offset ≠ 0)
    (hlong : bs - f.map.offset ≤ n - f.map.bytes bs) :
    ∃ f', setSize bs junk f bpos n = some (f', bpos) ∧
      f'.map.byteAt bs ((f.map.blocks.length - 1) * bs) =
        some (junk (f.map.blocks.length - 1) 0) := by
  obtain ⟨-, hbytes⟩ := bytes_div hf.map hpartly
  obtain ⟨m', hset, -, hloop⟩ := setSize_grow junk hf bpos hgrow
  have hcount : 0 < n - f.map.bytes bs := by omega
  obtain ⟨hzero, hlost⟩ := growPass_filling junk hf.map hpartly hlong
  obtain ⟨m₁, size, hpass, hpos, hsize, -, hgrown₁⟩ := growPass_spec junk hf.map hcount
  rw [hpass] at hloop hzero hlost
  -- The block is full after the first pass, so the later ones leave it.
  obtain ⟨m₂, hloop', hrest⟩ := growLoop_spec junk hgrown₁.valid
    (show n - f.map.bytes bs - size ≤ n - f.map.bytes bs - 1 by omega)
  obtain rfl := Option.some.inj (hloop.symm.trans hloop')
  refine ⟨_, hset, ?_⟩
  rw [← hlost]
  exact hrest.full hzero _ (by rw [hgrown₁.bytes]; omega)

/-- A file that grows keeps its bytes and gets zeros, whatever the buffers deliver that were not
read, if and only if its last block is full or is not filled up: another last block is not read
before its rest is cleared. -/
theorem growing_keeps_bytes_and_adds_zeros [Nontrivial β] (hf : f.Valid bs) (bpos : BlockPos)
    (hgrow : f.map.bytes bs < n) :
    (∀ junk, ∃ f', setSize bs junk f bpos n = some (f', bpos) ∧ GrownTo bs f n f') ↔
      (bs ∣ f.map.bytes bs ∨ n < (f.map.bytes bs / bs + 1) * bs) := by
  rw [grow_cond_iff hf.map hgrow]
  constructor
  · intro hall hpartly
    by_contra hlong
    obtain ⟨-, hbytes⟩ := bytes_div hf.map hpartly
    -- The first byte of the last block is replaced by another one.
    obtain ⟨first, hfirst⟩ : ∃ b, f.map.byteAt bs ((f.map.blocks.length - 1) * bs) ≠ some b := by
      obtain ⟨a, b, hne⟩ := exists_pair_ne β
      by_contra hnone
      push Not at hnone
      exact hne (Option.some.inj ((hnone a).symm.trans (hnone b)))
    obtain ⟨f', hset, hgrown⟩ := hall fun _ _ => first
    obtain ⟨f'', hset', hlost⟩ := setSize_filling (fun _ _ => first) hf bpos hgrow hpartly
      (Nat.le_of_not_lt hlong)
    obtain rfl : f' = f'' := congrArg Prod.fst (Option.some.inj (hset.symm.trans hset'))
    exact hfirst ((hgrown.kept _ (by omega)).symm.trans hlost)
  · intro hcond junk
    obtain ⟨m', hset, hgrown, hloop⟩ := setSize_grow junk hf bpos hgrow
    refine ⟨_, hset, ⟨hgrown.valid, rfl⟩, ?_, ?_, ?_⟩
    · show m'.bytes bs = n
      rw [hgrown.bytes]
      omega
    · by_cases hfull : f.map.offset = 0
      · exact hgrown.full hfull
      · obtain ⟨hpass, hkept⟩ := growPass_short junk hf.map hfull (hcond hfull)
        -- The first pass is the only one.
        have hm' : m' = (growPass bs junk f.map (n - f.map.bytes bs)).1 := by
          rw [hpass, Nat.sub_self, growLoop_zero] at hloop
          exact (Option.some.inj hloop).symm
        rw [hm']
        exact hkept
    · intro p hge hlt
      exact hgrown.zero p hge (by omega)

end Growing

/-- A file of one byte in a block of 512. -/
def oneByte : Shared Nat := ⟨⟨[fun _ => 7], 1⟩, ⟨1, 1⟩⟩

/-- The file of one byte grows inside of its block. -/
theorem growing_keeps_bytes_oneByte : oneByte.map.bytes 512 < 3 ∧
    ∀ junk, ∃ f', setSize 512 junk oneByte ⟨0, 0⟩ 3 = some (f', ⟨0, 0⟩) ∧
      GrownTo 512 oneByte 3 f' := by
  have hgrow : oneByte.map.bytes 512 < 3 := by decide
  have hvalid : oneByte.Valid 512 := ⟨⟨by decide, by simp [oneByte]⟩, rfl⟩
  exact ⟨hgrow, (growing_keeps_bytes_and_adds_zeros hvalid _ hgrow).mpr (.inr (by decide))⟩

/-- The byte of the file is lost if the file grows to the end of its block. -/
theorem growing_loses_byte :
    oneByte.map.byteAt 512 0 = some 7 ∧
      (setSize 512 (fun _ _ => 9) oneByte ⟨0, 0⟩ 512).map (fun r => r.1.map.byteAt 512 0) =
        some (some 9) := by
  decide +kernel

end Rtems.Rfs.File
