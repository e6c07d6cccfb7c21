import Rtems.Models.SparseDisk.Requests

/-!
# The sparse disk refines the abstract disk

The loops of a request do to the contents what the abstract disk does, part by part. Over a run
of requests the sparse disk then reports what the abstract disk reports.
-/

namespace Rtems.Sparse

/-- The sparse disk holds the abstract disk. -/
structure Represents (sd : SparseDisk) (disk : Blocks) : Prop where
  /-- The table and the buffers are in order. -/
  valid : Valid sd
  /-- The size of the blocks. -/
  size : disk.size = sd.mediaBlockSize
  /-- The number of buffers. -/
  buffers : disk.buffers = sd.blocksWithBuffer
  /-- The fill pattern. -/
  fill : disk.fill = sd.fillPattern
  /-- The bytes of the blocks. -/
  contents : ∀ b j, j < sd.mediaBlockSize → contents sd b j = disk.contents b j
  /-- The blocks with a buffer. -/
  buffered : ∀ b, b ∈ disk.buffered ↔ Buffered sd b
  /-- Their number. -/
  card : disk.buffered.card = sd.usedCount

/-- The buffers of the keys follow each other in the filled memory if its size does not wrap. -/
theorem initialState_data {size buffers : Nat} (hdata : buffers * size < 2 ^ 32) (fill : UInt8)
    (memory : Nat → UInt8) {i j : Nat} (hi : i < buffers) (hj : j < size) :
    (initialState size buffers fill memory).data (i * size + j) = fill := by
  have hend : i * size + j < buffers * size :=
    calc i * size + j < i * size + size := Nat.add_lt_add_left hj _
      _ = (i + 1) * size := (Nat.succ_mul ..).symm
      _ ≤ buffers * size := Nat.mul_le_mul_right _ hi
  rw [initialState, dataSize, Nat.mod_eq_of_lt hdata]
  exact if_pos hend

/-- A new sparse disk holds a disk that was never written. -/
theorem represents_initialState {size buffers : Nat} (hsize : 0 < size)
    (hdata : buffers * size < 2 ^ 32) (fill : UInt8) (memory : Nat → UInt8) :
    Represents (initialState size buffers fill memory) (.blank size buffers fill) := by
  have hkeys : ∀ (i : Nat) (a : Key),
      (initialState size buffers fill memory).keyTable[i]? = some a →
        i < buffers ∧ a.data = i * size := by
    intro i a ha
    obtain ⟨k, hk, rfl⟩ := Option.map_eq_some_iff.mp ((List.getElem?_map ..).symm.trans ha)
    obtain ⟨hi, rfl⟩ := List.getElem?_eq_some_iff.mp hk
    rw [List.getElem_range]
    exact ⟨hi.trans_eq List.length_range, rfl⟩
  have hvalid : Valid (initialState size buffers fill memory) := by
    refine ⟨hsize, ?_, Nat.zero_le _, ?_, ?_, ?_⟩
    · simp [initialState]
    · intro i j a b _ hj
      exact absurd hj (Nat.not_lt_zero j)
    · intro i j a b hne ha hb
      rw [(hkeys i a ha).2, (hkeys j b hb).2]
      show i * size + size ≤ j * size ∨ j * size + size ≤ i * size
      rcases Nat.lt_or_gt_of_ne hne with hlt | hgt
      · left
        rw [← Nat.succ_mul]
        exact Nat.mul_le_mul_right _ hlt
      · right
        rw [← Nat.succ_mul]
        exact Nat.mul_le_mul_right _ hgt
    · intro i a _ ha j hj
      rw [(hkeys i a ha).2]
      exact initialState_data hdata fill memory (hkeys i a ha).1 hj
  have hnone : ∀ b, ¬ Buffered (initialState size buffers fill memory) b := by
    rintro b ⟨i, a, hi, -⟩
    exact Nat.not_lt_zero i hi
  refine ⟨hvalid, rfl, rfl, rfl, ?_, ?_, rfl⟩
  · intro b j _
    exact hvalid.contents_none (hnone b) j
  · intro b
    exact iff_of_false (Finset.notMem_empty b) (hnone b)

variable {sd : SparseDisk}

/-- The blocks with a buffer are those of the used keys. -/
theorem mem_bufferedSet {b : Nat} : b ∈ bufferedSet sd ↔ Buffered sd b := by
  simp only [bufferedSet, List.mem_toFinset, List.mem_map, Buffered]
  constructor
  · rintro ⟨a, ha, rfl⟩
    obtain ⟨i, hi⟩ := List.getElem?_of_mem ha
    have hlt := (List.getElem?_eq_some_iff.mp hi).1
    rw [List.length_take] at hlt
    rw [List.getElem?_take_of_lt (by omega)] at hi
    exact ⟨i, a, by omega, hi, rfl⟩
  · rintro ⟨i, a, hi, ha, rfl⟩
    refine ⟨a, ?_, rfl⟩
    apply List.mem_of_getElem? (i := i)
    rwa [List.getElem?_take_of_lt hi]

variable {disk : Blocks}

theorem Represents.bufferedSet_eq (h : Represents sd disk) :
    bufferedSet sd = disk.buffered := by
  ext b
  rw [mem_bufferedSet, h.buffered]

/-- A number of bytes that fits an `int` is not negative. -/
theorem toInt_eq {n : Nat} (h : n < 2 ^ 31) : toInt n = n :=
  if_pos h

/-- Writing a part of a block does what the abstract disk does. -/
theorem Represents.write (h : Represents sd disk) (c : Chunk)
    {size : Nat} (hc : c.size = min size sd.mediaBlockSize)
    (habove : needsWriting disk.fill c.bytes c.size = true → c.block ∉ disk.buffered →
      disk.buffered.card ≠ disk.buffers → ∀ b ∈ disk.buffered, b < c.block) :
    match disk.write c with
    | none => writeBlock sd c.block c.bytes size = (sd, -1)
    | some disk' => ∃ sd', writeBlock sd c.block c.bytes size = (sd', toInt c.size) ∧
        sd'.mediaBlockSize = sd.mediaBlockSize ∧ Represents sd' disk' := by
  have hfill := h.fill
  have hcard := h.card
  have hbuffers := h.buffers
  have hcond : needsWriting sd.fillPattern c.bytes c.size = true → ¬ Buffered sd c.block →
      sd.usedCount < sd.blocksWithBuffer → ∀ b, Buffered sd b → b < c.block := by
    intro hneeds hnot hroom b hb
    exact habove (hfill ▸ hneeds) (fun hin => hnot ((h.buffered _).mp hin)) (by omega) b
      ((h.buffered b).mpr hb)
  rcases writeBlock_spec h.valid c.block c.bytes size hc hcond with
    ⟨hneeds, hnot, hfull, hwrite⟩ | ⟨hok, sd', hwrite, hwrote, hbuf, hmore, hsame⟩
  · have hfail : needsWriting disk.fill c.bytes c.size = true ∧ c.block ∉ disk.buffered ∧
        disk.buffered.card = disk.buffers :=
      ⟨hfill ▸ hneeds, fun hin => hnot ((h.buffered _).mp hin), by omega⟩
    rw [Blocks.write, if_pos hfail]
    exact hwrite
  · have hfine : ¬ (needsWriting disk.fill c.bytes c.size = true ∧ c.block ∉ disk.buffered ∧
        disk.buffered.card = disk.buffers) := by
      rintro ⟨hneeds, hnot, hfull⟩
      exact hok ⟨hfill ▸ hneeds, fun hin => hnot ((h.buffered _).mpr hin), by omega⟩
    rw [Blocks.write, if_neg hfine]
    refine ⟨sd', hwrite, hwrote.size_eq, hwrote.valid, ?_, ?_, ?_, ?_, ?_, ?_⟩
    · exact h.size.trans hwrote.size_eq.symm
    · exact h.buffers.trans hwrote.buffers_eq.symm
    · exact h.fill.trans hwrote.fill_eq.symm
    · intro b j hj
      have hj : j < sd.mediaBlockSize := hwrote.size_eq ▸ hj
      rw [hwrote.contents_eq b j hj, h.contents b j hj]
    · intro b
      rw [hbuf, ← h.buffered, ← hfill]
      by_cases hneeds : needsWriting disk.fill c.bytes c.size = true
      · simp only [hneeds, if_true, Finset.mem_insert, true_and]
        exact or_comm
      · simp only [hneeds, Bool.false_eq_true, if_false, false_and, or_false]
    · by_cases hneeds : needsWriting disk.fill c.bytes c.size = true
      · simp only [hneeds, if_true]
        by_cases hin : c.block ∈ disk.buffered
        · rw [Finset.insert_eq_of_mem hin, hcard, hsame]
          rintro ⟨-, hnot⟩
          exact hnot ((h.buffered _).mp hin)
        · rw [Finset.card_insert_of_notMem hin, hcard, hmore]
          exact ⟨hfill ▸ hneeds, fun hbuffered => hin ((h.buffered _).mpr hbuffered)⟩
      · simp only [hneeds, Bool.false_eq_true, if_false]
        rw [hcard, hsame]
        rintro ⟨hyes, -⟩
        exact hneeds (hfill ▸ hyes)

section

variable {fuel : Nat} {buffer : Nat → UInt8} {block handled size : Nat}

theorem bufferLoop_done {read : Bool} {st : Transfer} (h : ¬ (0 ≤ st.rv ∧ 0 < size)) :
    bufferLoop read fuel st buffer block handled size = some (st, buffer) := by
  rw [bufferLoop.eq_def]
  exact if_neg h

end

variable {cs : List Chunk} {c : Chunk} {rv : Int}

theorem Rising.head {buffers : Nat} {fill : UInt8} {buffered : Finset Nat}
    (h : Rising buffers fill buffered (c :: cs))
    (hneeds : needsWriting fill c.bytes c.size = true) (hnot : c.block ∉ buffered)
    (hroom : buffered.card ≠ buffers) : ∀ b ∈ buffered, b < c.block := by
  rw [Rising, if_pos ⟨hneeds, hnot⟩] at h
  exact (h.resolve_left hroom).1

/-- The condition for the parts behind a part that was written. -/
theorem Rising.tail {disk disk' : Blocks}
    (h : Rising disk.buffers disk.fill disk.buffered (c :: cs)) (hwrite : disk.write c = some disk') :
    Rising disk'.buffers disk'.fill disk'.buffered cs := by
  rw [Blocks.write] at hwrite
  split at hwrite
  · cases hwrite
  · next hok =>
    cases hwrite
    by_cases hnew : needsWriting disk.fill c.bytes c.size = true ∧ c.block ∉ disk.buffered
    · rw [Rising, if_pos hnew] at h
      have hroom : disk.buffered.card ≠ disk.buffers := fun hfull => hok ⟨hnew.1, hnew.2, hfull⟩
      simp only [hnew.1, if_true]
      exact (h.resolve_left hroom).2
    · rw [Rising, if_neg hnew] at h
      by_cases hneeds : needsWriting disk.fill c.bytes c.size = true
      · have hin : c.block ∈ disk.buffered := by
          by_contra hnot
          exact hnew ⟨hneeds, hnot⟩
        simp only [hneeds, if_true, Finset.insert_eq_of_mem hin]
        exact h
      · simp only [hneeds, Bool.false_eq_true, if_false]
        exact h

/-- The condition for the parts behind parts that were written. -/
theorem Rising.rest {disk disk' : Blocks} {cs rest : List Chunk}
    (h : Rising disk.buffers disk.fill disk.buffered (cs ++ rest))
    (hwrite : disk.writeAll cs = (disk', true)) :
    Rising disk'.buffers disk'.fill disk'.buffered rest := by
  induction cs generalizing disk with
  | nil =>
    obtain rfl : disk = disk' := congrArg Prod.fst hwrite
    exact h
  | cons c cs ih =>
    rw [Blocks.writeAll] at hwrite
    cases hc : disk.write c with
    | none =>
      rw [hc] at hwrite
      cases hwrite
    | some disk₁ =>
      rw [hc] at hwrite
      exact ih (h.tail hc) hwrite

/-- Writing parts after parts. -/
theorem Blocks.writeAll_append (disk : Blocks) (cs rest : List Chunk) :
    disk.writeAll (cs ++ rest) =
      if (disk.writeAll cs).2 then (disk.writeAll cs).1.writeAll rest else disk.writeAll cs := by
  induction cs generalizing disk with
  | nil => rfl
  | cons c cs ih =>
    rw [List.cons_append, Blocks.writeAll, Blocks.writeAll]
    cases hc : disk.write c with
    | none => rfl
    | some disk₁ => exact ih disk₁

section

variable (h : Represents sd disk)
include h

/-- The bytes that a read of a block gets. -/
theorem Represents.readBlock (block : Nat) (buffer : Nat → UInt8) (handled size : Nat) :
    (readBlock sd block buffer handled size).2 = toInt (min size sd.mediaBlockSize) ∧
      (∀ p, p < handled → (readBlock sd block buffer handled size).1 p = buffer p) ∧
      ∀ j, j < min size sd.mediaBlockSize →
        (readBlock sd block buffer handled size).1 (handled + j) = disk.contents block j := by
  have hread : ∀ j, j < min size sd.mediaBlockSize →
      disk.contents block j = Sparse.contents sd block j :=
    fun j hj => (h.contents block j (by omega)).symm
  cases hfind : findKey sd block with
  | some key =>
    simp only [Sparse.readBlock, hfind]
    refine ⟨trivial, fun p hp => patch_outside _ _ (by omega), fun j hj => ?_⟩
    rw [patch_add _ _ hj, hread j hj, Sparse.contents, hfind]
  | none =>
    simp only [Sparse.readBlock, hfind]
    refine ⟨trivial, fun p hp => patch_outside _ _ (by omega), fun j hj => ?_⟩
    rw [patch_add _ _ (by omega), hread j hj, Sparse.contents, hfind]

section

variable (hmax : sd.mediaBlockSize < 2 ^ 31)
include hmax

/-- The loop over a buffer writes its parts as the abstract disk does. -/
theorem bufferLoop_write_spec {fuel : Nat}
    {buffer : Nat → UInt8} {block handled size : Nat} {rest : List Chunk} (hrv : 0 ≤ rv)
    (hfuel : size ≤ fuel)
    (hrise : Rising disk.buffers disk.fill disk.buffered
      (chunks sd.mediaBlockSize buffer fuel block handled size ++ rest)) :
    ∃ st, bufferLoop false fuel ⟨sd, rv⟩ buffer block handled size = some (st, buffer) ∧
      st.disk.mediaBlockSize = sd.mediaBlockSize ∧
      Represents st.disk
        (disk.writeAll (chunks sd.mediaBlockSize buffer fuel block handled size)).1 ∧
      ((disk.writeAll (chunks sd.mediaBlockSize buffer fuel block handled size)).2 = true ↔
        0 ≤ st.rv) := by
  induction fuel generalizing sd disk rv block handled size with
  | zero =>
    exact ⟨⟨sd, rv⟩, bufferLoop_done fun hand => by omega, rfl, h, iff_of_true rfl hrv⟩
  | succ fuel ih =>
    by_cases hzero : size = 0
    · refine ⟨⟨sd, rv⟩, bufferLoop_done fun hand => by omega, rfl, ?_⟩
      rw [chunks, if_pos hzero]
      exact ⟨h, iff_of_true rfl hrv⟩
    · have hpos := h.valid.size_pos
      obtain ⟨n, hn⟩ := @exists_eq _ (min size sd.mediaBlockSize)
      rw [chunks, if_neg hzero, ← hn] at hrise ⊢
      rw [bufferLoop.eq_def]
      simp only [if_pos (And.intro hrv (Nat.pos_of_ne_zero hzero)), Blocks.writeAll]
      have hstep := h.write ⟨block, fun j => buffer (handled + j), n⟩ hn hrise.head
      cases hwrite : disk.write ⟨block, fun j => buffer (handled + j), n⟩ with
      | none =>
        rw [hwrite] at hstep
        rw [hstep]
        refine ⟨⟨sd, -1⟩, bufferLoop_done fun hand => ?_, rfl, h, iff_of_false (by simp) ?_⟩
        · have hneg : (0 : Int) ≤ -1 := hand.1
          omega
        · show ¬ (0 : Int) ≤ -1
          decide
      | some disk₁ =>
        rw [hwrite] at hstep
        obtain ⟨sd₁, hblock, hsize, hrep⟩ := hstep
        have hint : toInt n = n := toInt_eq (by omega)
        rw [hblock]
        simp only [hint, Int.toNat_natCast]
        have hrest := hrise.tail hwrite
        rw [← hsize] at hrest ⊢
        exact ih hrep (by omega) (by omega) (by omega) hrest

/-- A request that writes does what the abstract disk does. -/
theorem requestLoop_write_spec {bufs : List SgBuffer} (hrv : 0 ≤ rv)
    (hrise : Rising disk.buffers disk.fill disk.buffered
      (Request.chunks ⟨false, bufs⟩ sd.mediaBlockSize)) :
    ∃ st bufs', requestLoop false ⟨sd, rv⟩ bufs = some (st, bufs') ∧
      st.disk.mediaBlockSize = sd.mediaBlockSize ∧
      Represents st.disk (disk.writeAll (Request.chunks ⟨false, bufs⟩ sd.mediaBlockSize)).1 ∧
      ((disk.writeAll (Request.chunks ⟨false, bufs⟩ sd.mediaBlockSize)).2 = true ↔
        0 ≤ st.rv) := by
  induction bufs generalizing sd disk rv with
  | nil => exact ⟨⟨sd, rv⟩, [], rfl, rfl, h, iff_of_true rfl hrv⟩
  | cons sg bufs ih =>
    obtain ⟨cs, hcs⟩ := @exists_eq _
      (chunks sd.mediaBlockSize sg.buffer sg.length sg.block 0 sg.length)
    have hsplit : Request.chunks ⟨false, sg :: bufs⟩ sd.mediaBlockSize =
        cs ++ Request.chunks ⟨false, bufs⟩ sd.mediaBlockSize := by
      rw [hcs]
      rfl
    rw [hsplit] at hrise ⊢
    rw [hcs] at hrise
    obtain ⟨st₁, hloop, hsize, hrep, hok⟩ :=
      bufferLoop_write_spec h hmax hrv (Nat.le_refl sg.length) hrise
    rw [← hcs] at hrise hrep hok
    rw [requestLoop, if_pos hrv, hloop, Option.bind_some, Blocks.writeAll_append]
    by_cases hgood : (disk.writeAll cs).2 = true
    · have hpair : disk.writeAll cs = ((disk.writeAll cs).1, true) := Prod.ext rfl hgood
      have hrest := hrise.rest hpair
      rw [← hsize] at hrest
      obtain ⟨st, bufs', hrequest, hsize', hfinal⟩ :=
        ih hrep (hsize.symm ▸ hmax) (hok.mp hgood) hrest
      refine ⟨st, { sg with buffer := sg.buffer } :: bufs', ?_, hsize'.trans hsize, ?_⟩
      · show (requestLoop false st₁ bufs).map _ = _
        rw [hrequest]
        rfl
      · rw [if_pos hgood, ← hsize]
        exact hfinal
    · have hneg : ¬ 0 ≤ st₁.rv := fun hle => hgood (hok.mpr hle)
      have hstop : requestLoop false st₁ bufs = some (st₁, bufs) := by
        cases bufs with
        | nil => rfl
        | cons sg' bufs => rw [requestLoop, if_neg hneg]
      refine ⟨st₁, { sg with buffer := sg.buffer } :: bufs, ?_, hsize, ?_⟩
      · show (requestLoop false st₁ bufs).map _ = _
        rw [hstop]
        rfl
      · rw [if_neg hgood]
        exact ⟨hrep, hok⟩

/-- The loop over a buffer reads the bytes of the blocks. -/
theorem bufferLoop_read_spec {fuel : Nat}
    {buffer : Nat → UInt8} {block handled size : Nat} (hrv : 0 ≤ rv) (hfuel : size ≤ fuel)
    (hblock : block < 2 ^ 32) :
    ∃ rv' buffer', bufferLoop true fuel ⟨sd, rv⟩ buffer block handled size =
        some (⟨sd, rv'⟩, buffer') ∧ 0 ≤ rv' ∧ (∀ p, p < handled → buffer' p = buffer p) ∧
      ∀ j, j < size → buffer' (handled + j) =
        disk.contents ((block + j / sd.mediaBlockSize) % 2 ^ 32) (j % sd.mediaBlockSize) := by
  induction fuel generalizing rv buffer block handled size with
  | zero =>
    exact ⟨rv, buffer, bufferLoop_done fun hand => by omega, hrv, fun _ _ => rfl,
      fun j hj => by omega⟩
  | succ fuel ih =>
    by_cases hzero : size = 0
    · exact ⟨rv, buffer, bufferLoop_done fun hand => by omega, hrv, fun _ _ => rfl,
        fun j hj => by omega⟩
    · have hpos := h.valid.size_pos
      obtain ⟨hret, hbefore, hbytes⟩ := h.readBlock block buffer handled size
      obtain ⟨n, hn⟩ := @exists_eq _ (min size sd.mediaBlockSize)
      rw [← hn] at hret hbytes
      rw [toInt_eq (by omega)] at hret
      rw [bufferLoop.eq_def]
      simp only [if_pos (And.intro hrv (Nat.pos_of_ne_zero hzero)), hret, Int.toNat_natCast]
      obtain ⟨rv', buffer', hloop, hrv', hkeep, hrest⟩ :=
        @ih n (readBlock sd block buffer handled size).1 ((block + 1) % 2 ^ 32) (handled + n)
          (size - n) (Int.natCast_nonneg n) (by omega) (Nat.mod_lt (block + 1) (by decide))
      refine ⟨rv', buffer', hloop, hrv', ?_, ?_⟩
      · intro p hp
        rw [hkeep p (by omega), hbefore p hp]
      · intro j hj
        by_cases hfirst : j < n
        · rw [hkeep _ (by omega), hbytes j hfirst, Nat.div_eq_of_lt (by omega), Nat.add_zero,
            Nat.mod_eq_of_lt hblock, Nat.mod_eq_of_lt (by omega)]
        · -- The bytes behind the first block are those of the loop from the next block on.
          have hfull : n = sd.mediaBlockSize := by omega
          have hnext := hrest (j - n) (by omega)
          rw [show handled + n + (j - n) = handled + j by omega] at hnext
          have hdiv : j / sd.mediaBlockSize = (j - n) / sd.mediaBlockSize + 1 := by
            rw [hfull, ← Nat.add_div_right _ hpos, Nat.sub_add_cancel (by omega)]
          have hmod : j % sd.mediaBlockSize = (j - n) % sd.mediaBlockSize := by
            rw [hfull]
            exact Nat.mod_eq_sub_mod (by omega)
          rw [hnext, hdiv, hmod, Nat.mod_add_mod]
          congr 2
          omega

end

end

/-- A request that reads gets the bytes of the blocks. -/
theorem requestLoop_read_spec (bufs : List SgBuffer)
    (h : Represents sd disk) (hmax : sd.mediaBlockSize < 2 ^ 31) (hrv : 0 ≤ rv) :
    ∃ rv' bufs', requestLoop true ⟨sd, rv⟩ bufs = some (⟨sd, rv'⟩, bufs') ∧ 0 ≤ rv' ∧
      (bufs'.map fun sg => segment sg.buffer 0 sg.length) =
        bufs.map fun sg => (List.range sg.length).map (disk.readByte sg) := by
  induction bufs generalizing rv with
  | nil => exact ⟨rv, [], rfl, hrv, rfl⟩
  | cons sg bufs ih =>
    obtain ⟨rv₁, buffer, hloop, hrv₁, -, hbytes⟩ :=
      bufferLoop_read_spec h hmax hrv (Nat.le_refl sg.length) sg.block_lt
    obtain ⟨rv', bufs', hrequest, hrv', hdata⟩ := ih hrv₁
    refine ⟨rv', { sg with buffer } :: bufs', ?_, hrv', ?_⟩
    · rw [requestLoop, if_pos hrv, hloop, Option.bind_some]
      show (requestLoop true ⟨sd, rv₁⟩ bufs).map _ = _
      rw [hrequest]
      rfl
    · rw [List.map_cons, List.map_cons, hdata]
      congr 1
      apply List.map_congr_left
      intro j hj
      have hj := List.mem_range.mp hj
      rw [Blocks.readByte, h.size]
      exact hbytes j hj

/-- A sparse disk and an abstract disk that reported the same so far. -/
structure Agree (size : Nat) (s : Session SparseDisk) (t : Session Blocks) : Prop where
  /-- The sparse disk holds the abstract disk. -/
  represents : Represents s.disk t.disk
  /-- They reported the same. -/
  outcomes : s.outcomes = t.outcomes
  /-- The size of the blocks. -/
  size_eq : s.disk.mediaBlockSize = size

/-- A request finishes, and both disks report the same. -/
theorem Agree.step {size : Nat} (hsize : size < 2 ^ 31) {s : Session SparseDisk}
    {t : Session Blocks} (h : Agree size s t) {req : Request} (hordered : Ordered s req) :
    ∃ s' t', step s req = some s' ∧ abstractStep t req = some t' ∧ Agree size s' t' := by
  have hmax : s.disk.mediaBlockSize < 2 ^ 31 := h.size_eq ▸ hsize
  obtain ⟨isRead, bufs⟩ := req
  cases isRead with
  | true =>
    obtain ⟨rv, bufs', hloop, hrv, hdata⟩ :=
      requestLoop_read_spec bufs h.represents hmax (Int.le_refl 0)
    have hstatus : ¬ rv < 0 := by omega
    have hstep : Sparse.step s ⟨true, bufs⟩ = some ⟨s.disk, s.outcomes ++
        [⟨.successful, bufs'.map fun sg => segment sg.buffer 0 sg.length⟩]⟩ := by
      simp only [Sparse.step, readWrite, hloop, Option.map_some, if_neg hstatus, if_true]
    refine ⟨_, _, hstep, if_pos rfl, h.represents, ?_, h.size_eq⟩
    rw [hdata, h.outcomes]
  | false =>
    have hrise : Rising t.disk.buffers t.disk.fill t.disk.buffered
        (Request.chunks ⟨false, bufs⟩ s.disk.mediaBlockSize) := by
      rw [h.represents.buffers, h.represents.fill, ← h.represents.bufferedSet_eq]
      exact hordered.resolve_left (by simp)
    obtain ⟨st, bufs', hloop, hkeep, hrep, hok⟩ :=
      requestLoop_write_spec h.represents hmax (Int.le_refl 0) hrise
    have hstep : Sparse.step s ⟨false, bufs⟩ = some ⟨st.disk, s.outcomes ++
        [⟨if st.rv < 0 then .ioError else .successful, []⟩]⟩ := by
      simp only [Sparse.step, readWrite, hloop, Option.map_some, Bool.false_eq_true, if_false]
    have habstract : abstractStep t ⟨false, bufs⟩ = some ⟨(t.disk.writeAll
        (Request.chunks ⟨false, bufs⟩ s.disk.mediaBlockSize)).1, t.outcomes ++
        [⟨if (t.disk.writeAll (Request.chunks ⟨false, bufs⟩ s.disk.mediaBlockSize)).2
          then .successful else .ioError, []⟩]⟩ := by
      rw [← h.represents.size]
      rfl
    refine ⟨_, _, hstep, habstract, hrep, ?_, hkeep.trans h.size_eq⟩
    show s.outcomes ++ [_] = t.outcomes ++ [_]
    rw [h.outcomes]
    by_cases hneg : st.rv < 0
    · rw [if_pos hneg, if_neg fun hgood => absurd (hok.mp hgood) (by omega)]
    · rw [if_neg hneg, if_pos (hok.mpr (by omega))]

/-- In every run of requests in which the blocks get their buffers in ascending order, the
sparse disk reports what a disk does: a read returns the bytes last written to each block, or
the fill pattern, and a write fails only at a block that needs a buffer when all are in use. No
request hangs. -/
theorem sparse_disk_behaves_like_disk {size : Nat} (hpos : 0 < size) (hsize : size < 2 ^ 31)
    {buffers : Nat} (hdata : buffers * size < 2 ^ 32) (fill : UInt8) (memory : Nat → UInt8)
    {requests : List Request} {s : Session SparseDisk}
    (h : Run step Ordered ⟨initialState size buffers fill memory, []⟩ requests s) :
    (∃ t, Run abstractStep (fun _ _ => True) ⟨.blank size buffers fill, []⟩ requests t ∧
      s.outcomes = t.outcomes ∧ ∀ b j, j < size → contents s.disk b j = t.disk.contents b j) ∧
    ∀ req, Ordered s req → (step s req).isSome := by
  have hstart : Agree size ⟨initialState size buffers fill memory, []⟩
      ⟨.blank size buffers fill, []⟩ :=
    ⟨represents_initialState hpos hdata fill memory, rfl, rfl⟩
  have hsim : ∀ (s : Session SparseDisk) (t : Session Blocks) (req : Request) s₁, Agree size s t →
      Ordered s req → step s req = some s₁ →
      True ∧ ∃ t', abstractStep t req = some t' ∧ Agree size s₁ t' := by
    intro s t req s₁ hst hordered hstep
    obtain ⟨s', t', hs', ht', hst'⟩ := hst.step hsize hordered
    obtain rfl := Option.some.inj (hs'.symm.trans hstep)
    exact ⟨trivial, t', ht', hst'⟩
  obtain ⟨t, hrun, hagree⟩ := h.simulate (Agree size) hstart hsim
  refine ⟨⟨t, hrun, hagree.outcomes, ?_⟩, ?_⟩
  · intro b j hj
    exact hagree.represents.contents b j (hagree.size_eq.symm ▸ hj)
  · intro req hordered
    obtain ⟨s', -, hs', -⟩ := hagree.step hsize hordered
    rw [hs']
    rfl

/-- A request that writes one byte to a block with one byte. -/
private def writeByte (block : Nat) (byte : UInt8) (h : block < 2 ^ 32) : Request :=
  ⟨false, [⟨block, 1, fun _ => byte, h⟩]⟩

/-- A request that reads two blocks with one byte. -/
private def readTwo (block : Nat) (h : block < 2 ^ 32) : Request :=
  ⟨true, [⟨block, 2, fun _ => 0, h⟩]⟩

/-- Two blocks are written in ascending order and read again. -/
private def risingRequests : List Request :=
  [writeByte 1 7 (by decide), writeByte 2 9 (by decide), readTwo 1 (by decide)]

/-- The same two blocks are written in descending order. -/
private def fallingRequests : List Request :=
  [writeByte 2 9 (by decide), writeByte 1 7 (by decide), readTwo 1 (by decide)]

/-- A disk with two buffers whose blocks are written in ascending order. -/
theorem sparse_disk_behaves_like_disk_twoBlocks :
    ∃ s, Run step Ordered ⟨initialState 1 2 0 (fun _ => 5), []⟩ risingRequests s ∧
      s.outcomes = [⟨.successful, []⟩, ⟨.successful, []⟩, ⟨.successful, [[7, 9]]⟩] ∧
      (∃ t, Run abstractStep (fun _ _ => True) ⟨.blank 1 2 0, []⟩ risingRequests t ∧
        s.outcomes = t.outcomes ∧ ∀ b j, j < 1 → contents s.disk b j = t.disk.contents b j) := by
  refine Run.exists_of_exec ⟨_, rfl, fun hrun => ⟨rfl, ?_⟩⟩
  exact (sparse_disk_behaves_like_disk (by decide) (by decide) (by decide) 0 _ hrun).1

/-- The key that a new block gets is the last one of the sorted table. If the block is not the
last one then its bytes go to the buffer of the last block, and it reads as the fill pattern. -/
theorem new_block_overwrites_last_block :
    ∃ s t, Run step (fun _ _ => True) ⟨initialState 1 2 0 (fun _ => 5), []⟩ fallingRequests s ∧
      Run abstractStep (fun _ _ => True) ⟨.blank 1 2 0, []⟩ fallingRequests t ∧
      s.outcomes = [⟨.successful, []⟩, ⟨.successful, []⟩, ⟨.successful, [[0, 7]]⟩] ∧
      t.outcomes = [⟨.successful, []⟩, ⟨.successful, []⟩, ⟨.successful, [[7, 9]]⟩] :=
  ⟨_, _, .of_exec rfl, .of_exec rfl, rfl, rfl⟩

end Rtems.Sparse
