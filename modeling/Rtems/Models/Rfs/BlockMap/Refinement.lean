import Rtems.Models.Rfs.BlockMap.Shrink

/-!
# A block map is a list of blocks with a cursor

The abstract map is the list of the data blocks and a position. Every run of a block map
whose growths do not wrap `size_t` is matched by a run of the abstract map with the same
results, and the blocks in use for the map are its data blocks and the tables its count
needs.
-/

namespace Rtems.Rfs.BlockMap

open Paged

variable {fs : FileSystem} {base : BlockNo → Bool} {s : State} {l : Layout} {b : BlockNo}

theorem Represents.handleRequest (h : Represents fs base s l) (k : Handle) (b : BlockNo) :
    Represents fs base (handleRequest s k b) l := by
  cases k <;>
    exact ⟨⟨h.located.count, h.located.dataLevel, h.located.singLevel, h.located.rooted⟩,
      h.owned.congr rfl rfl⟩

/-- The number that a table gives; one that is not below the number of blocks counts as zero. -/
def tableEntry (fs : FileSystem) (s : State) (block offset : Nat) : BlockNo :=
  if s.table block offset < fs.blocks then s.table block offset else 0

theorem findIndirect_entry (fs : FileSystem) (s : State) (k : Handle) (block offset : Nat) :
    findIndirect fs s k block offset = (tableEntry fs s block offset, handleRequest s k block) := by
  have hnumber : getNumber (handleRequest s k block) k offset = s.table block offset := by
    cases k <;> rfl
  have hne : ∀ b : Nat, b < fs.blocks → ¬ (b + 1) % 2 ^ 32 = 0 := by
    intro b hb
    have hblocks := fs.blocks_lt
    omega
  simp only [findIndirect, hnumber, tableEntry, Prod.mk.injEq, and_true]
  by_cases hvalid : s.table block offset < fs.blocks
  · rw [if_neg (hne _ hvalid), if_neg (Nat.not_le.2 hvalid), if_pos hvalid]
  · rw [if_neg hvalid]
    by_cases hall : (s.table block offset + 1) % 2 ^ 32 = 0
    · rw [if_pos hall, ite_self]
    · rw [if_neg hall, if_pos (Nat.le_of_not_lt hvalid)]

theorem findIndirect_eq {k : Handle} {block offset b : Nat} (htable : s.table block offset = b)
    (hb : b < fs.blocks) : findIndirect fs s k block offset = (b, handleRequest s k block) := by
  rw [findIndirect_entry, tableEntry, htable, if_pos hb]

theorem Represents.setBpos (h : Represents fs base s l) (p : BlockPos) :
    Represents fs base { s with bpos := p } l :=
  ⟨⟨h.located.count, h.located.dataLevel, h.located.singLevel, h.located.rooted⟩,
    h.owned.congr rfl rfl⟩

section

variable (hsingly : fs.blockMapSinglyBlocks = fs.blocksPerBlock * inodeBlocks)
  (h : Represents fs base s l)
include hsingly h

/-- The tables lead to every data block. -/
theorem lookup_spec (hhi : l.data.length < fs.blockMapDoublyBlocks) {i : Nat}
    (hi : l.data[i]? = some b) :
    ∃ s', lookup fs s i = (.ok, b, s') ∧ Represents fs base s' l ∧ s'.size = s.size := by
  have hlt := inodeBlocks_lt fs
  have hloc := h.located
  have hvalid : ∀ y, y ∈ l.blocks → y < fs.blocks := fun y hy => (h.owned.valid y hy).2.1
  have hb : b < fs.blocks := hvalid b (by simp [Layout.blocks, List.mem_of_getElem? hi])
  simp only [lookup, hloc.count, hsingly, if_pos hhi]
  split
  · rename_i hle
    exact ⟨s, by rw [hloc.dataLevel.fits hle i b hi], h, rfl⟩
  rename_i hgt
  obtain ⟨y, hy, hyb⟩ := hloc.dataLevel.paged (Nat.lt_of_not_le hgt) i b hi
  have hpages := pagesFor_le_iff (n := l.data.length) hlt (by decide)
  rw [← hloc.dataLevel.pages] at hpages
  split
  · rename_i hle
    have hslot := hloc.singLevel.fits (hpages.2 hle) _ y hy
    exact ⟨handleRequest s .singly y, by rw [hslot, findIndirect_eq hyb hb],
      h.handleRequest .singly y, rfl⟩
  · rename_i hmore
    obtain ⟨z, hz, hzy⟩ :=
      hloc.singLevel.paged (Nat.lt_of_not_le fun hle => hmore (hpages.1 hle)) _ y hy
    have hslot := hloc.rooted _ z hz
    have hyb' : y < fs.blocks := hvalid y (by simp [Layout.blocks, List.mem_of_getElem? hy])
    refine ⟨handleRequest (handleRequest s .doubly z) .singly y, ?_,
      (h.handleRequest .doubly z).handleRequest .singly y, rfl⟩
    have hfind : findIndirect fs (handleRequest s .doubly z) .singly y (i % fs.blocksPerBlock) =
        (b, handleRequest (handleRequest s .doubly z) .singly y) := findIndirect_eq hyb hb
    simp only [hslot, findIndirect_eq hzy hyb', hfind]

/-- A find is a look-up in the list of the data blocks; the position moves if it succeeds. -/
theorem blockMapFind_spec (hc : Cached s l.data)
    (hhi : l.data ≠ [] → l.data.length < fs.blockMapDoublyBlocks) (p : BlockPos) :
    (l.data[p.bno]? = none ∧ blockMapFind fs s p = (.enxio, 0, s)) ∨
    ∃ b s', l.data[p.bno]? = some b ∧ blockMapFind fs s p = (.ok, b, s') ∧
      Represents fs base s' l ∧ Cached s' l.data ∧ s'.size = s.size ∧
      s'.bpos = ⟨p.bno, p.boff, b⟩ := by
  unfold blockMapFind
  split
  · rename_i hpast
    refine .inl ⟨List.getElem?_eq_none ?_, rfl⟩
    unfold posBlockPastEnd at hpast
    rw [h.located.count] at hpast
    omega
  · rename_i hinside
    have hlt : p.bno < l.data.length := by
      unfold posBlockPastEnd at hinside
      rw [h.located.count] at hinside
      omega
    obtain ⟨b, hb⟩ : ∃ b, l.data[p.bno]? = some b := ⟨_, List.getElem?_eq_getElem hlt⟩
    obtain ⟨s', hfound, h', hsize⟩ : ∃ s',
        (if p.bno = s.bpos.bno ∧ s.bpos.block ≠ 0 then (.ok, s.bpos.block, s)
          else lookup fs s p.bno) = (.ok, b, s') ∧ Represents fs base s' l ∧ s'.size = s.size := by
      split
      · rename_i hcached
        have hsame : some s.bpos.block = some b := by
          rw [← hc hcached.2, ← hcached.1, hb]
        exact ⟨s, by rw [Option.some.inj hsame], h, rfl⟩
      · have hne : l.data ≠ [] := List.ne_nil_of_length_pos (by omega)
        exact lookup_spec hsingly h (hhi hne) hb
    refine .inr ⟨b, { s' with bpos := ⟨p.bno, p.boff, b⟩ }, hb, ?_, h'.setBpos _, fun _ => hb,
      hsize, rfl⟩
    simp only [hfound, if_true]

end

/-- A number of a block of the file system other than the superblock. -/
def Usable (fs : FileSystem) (b : BlockNo) : Prop := b ≠ 0 ∧ b < fs.blocks

theorem usable_tableEntry {block offset : Nat} :
    Usable fs (tableEntry fs s block offset) ↔ Usable fs (s.table block offset) := by
  unfold tableEntry
  split
  next => rfl
  next hwrong => exact iff_of_false (fun h => h.1 rfl) fun h => hwrong h.2

/-- The number that the tables of the map hold for a block is usable. -/
structure Stored (fs : FileSystem) (s : State) (bno : Nat) : Prop where
  /-- The slot of a direct block. -/
  direct : s.size.count ≤ inodeBlocks → Usable fs (s.blocks bno)
  /-- The entry of the table in a slot. -/
  singly : inodeBlocks < s.size.count → s.size.count ≤ fs.blockMapSinglyBlocks →
    Usable fs (s.table (s.blocks (bno / fs.blocksPerBlock)) (bno % fs.blocksPerBlock))
  /-- The entry of the table that a table names; a wrong name leads to the superblock. -/
  doubly : inodeBlocks < s.size.count → fs.blockMapSinglyBlocks < s.size.count →
    s.size.count < fs.blockMapDoublyBlocks →
    Usable fs (s.table
      (tableEntry fs s (s.blocks (bno / fs.blocksPerBlock / fs.blocksPerBlock))
        (bno / fs.blocksPerBlock % fs.blocksPerBlock)) (bno % fs.blocksPerBlock))

/-- The number that is kept from the last look-up of the same block is usable, or else the one
that the tables hold. -/
structure Intact (fs : FileSystem) (s : State) (bno : Nat) : Prop where
  /-- The number kept from the last look-up. -/
  cached : bno = s.bpos.bno → s.bpos.block ≠ 0 → s.bpos.block < fs.blocks
  /-- The number in the tables. -/
  stored : ¬(bno = s.bpos.bno ∧ s.bpos.block ≠ 0) → Stored fs s bno

/-- A look-up that succeeds gives a usable block if and only if the tables hold one. -/
theorem lookup_usable_iff {bno : Nat} :
    ((lookup fs s bno).1 = .ok → Usable fs (lookup fs s bno).2.1) ↔ Stored fs s bno := by
  unfold lookup
  split
  next hdirect =>
    constructor
    · intro h
      exact ⟨fun _ => h rfl, fun hmore => absurd hmore (Nat.not_lt.mpr hdirect),
        fun hmore => absurd hmore (Nat.not_lt.mpr hdirect)⟩
    · exact fun h _ => h.direct hdirect
  next hindirect =>
    have hmore := Nat.lt_of_not_le hindirect
    simp only [findIndirect_entry]
    split
    next hsingly =>
      rw [usable_tableEntry]
      constructor
      · intro h
        exact ⟨fun hle => absurd hle hindirect, fun _ _ => h rfl,
          fun _ hlt => absurd hlt (Nat.not_lt.mpr hsingly)⟩
      · exact fun h _ => h.singly hmore hsingly
    next hdoubly =>
      split
      next hroom =>
        rw [usable_tableEntry]
        constructor
        · intro h
          exact ⟨fun hle => absurd hle hindirect, fun _ hle => absurd hle hdoubly,
            fun _ _ _ => h rfl⟩
        · exact fun h _ => h.doubly hmore (Nat.lt_of_not_le hdoubly) hroom
      next hfull =>
        refine iff_of_true (fun h => by cases h) ⟨fun hle => absurd hle hindirect,
          fun _ hle => absurd hle hdoubly, fun _ _ hlt => absurd hlt hfull⟩

/-- A find that succeeds gives a usable block if and only if the position is past the end or the
number on its way is usable. -/
theorem find_gives_usable_block {p : BlockPos} :
    ((blockMapFind fs s p).1 = .ok → Usable fs (blockMapFind fs s p).2.1) ↔
      (p.bno < s.size.count → Intact fs s p.bno) := by
  unfold blockMapFind
  split
  next hpast =>
    unfold posBlockPastEnd at hpast
    exact iff_of_true (fun h => by cases h) fun hlt => absurd hlt (by omega)
  next hinside =>
    have hlt : p.bno < s.size.count := by
      unfold posBlockPastEnd at hinside
      omega
    by_cases hcached : p.bno = s.bpos.bno ∧ s.bpos.block ≠ 0
    · simp only [if_pos hcached, if_true]
      constructor
      · intro h _
        exact ⟨fun _ _ => (h trivial).2, fun hnot => absurd hcached hnot⟩
      · intro h _
        exact ⟨hcached.2, (h hlt).cached hcached.1 hcached.2⟩
    · simp only [if_neg hcached]
      have hfound : ((lookup fs s p.bno).1 = .ok → Usable fs (lookup fs s p.bno).2.1) ↔
          (p.bno < s.size.count → Intact fs s p.bno) := by
        rw [lookup_usable_iff]
        exact ⟨fun h _ => ⟨fun hsame hne => absurd ⟨hsame, hne⟩ hcached, fun _ => h⟩,
          fun h => (h hlt).stored hcached⟩
      rw [← hfound]
      split <;> rfl

/-- A file system of 100 blocks. -/
def hundredBlocks : FileSystem := ⟨32, 100, by decide, 512, by decide⟩

/-- A map of some blocks with one number in all slots and in all tables. -/
def constantMap (count : Nat) (b : BlockNo) : State :=
  { (start fun _ => false).state with
    size := ⟨count, 0⟩
    blocks := fun _ => b
    table := fun _ _ => b }

/-- A slot is not checked, and the error of a wrong table entry is dropped. -/
theorem find_gives_wrong_blocks :
    (blockMapFind hundredBlocks (constantMap 1 100) ⟨0, 0, 0⟩).1 = .ok ∧
      (blockMapFind hundredBlocks (constantMap 1 100) ⟨0, 0, 0⟩).2.1 = 100 ∧
      (blockMapFind hundredBlocks (constantMap 6 100) ⟨0, 0, 0⟩).1 = .ok ∧
      (blockMapFind hundredBlocks (constantMap 6 100) ⟨0, 0, 0⟩).2.1 = 0 := by
  decide +kernel

/-- The abstract block map: its data blocks, its position and the offset of its size. -/
structure Cursor where
  data : List BlockNo
  bno : Nat
  boff : Nat
  offset : Nat

/-- Find a block in the list; the position moves if there is one. -/
def Cursor.find (c : Cursor) (bno boff : Nat) : Cursor × Result :=
  match c.data[bno]? with
  | some b => ({ c with
      bno := bno
      boff := boff }, ⟨.ok, some b⟩)
  | none => (c, ⟨.enxio, some 0⟩)

/-- Remove the last blocks and keep the position inside the list. -/
def Cursor.shrink (c : Cursor) (n : Nat) : Cursor :=
  if c.data = [] then c
  else
    let size := shrunkSize ⟨c.data.length, c.offset⟩ n
    let p := keepInside size ⟨c.bno, c.boff, 0⟩
    ⟨c.data.take (c.data.length - n), p.bno, p.boff, size.offset⟩

/-- Append blocks. -/
def Cursor.append (c : Cursor) (added : List BlockNo) : Cursor :=
  { c with
    data := c.data ++ added
    offset := if added = [] then c.offset else 0 }

/-- How a growth ends: it is refused as a whole, it adds all blocks or it fails at a block. -/
def GrowEnds (fs : FileSystem) (c : Cursor) (blocks : Nat) (rc : Errno) (added : List BlockNo) :
    Prop :=
  (rc = .efbig ∧ added = [] ∧ fs.blockMapDoublyBlocks ≤ c.data.length + blocks) ∨
    (rc = .ok ∧ added.length = blocks) ∨ (rc = .enospc ∧ added.length < blocks)

/-- Keeping a position inside a map does not depend on its block number. -/
theorem keepInside_congr (size : BlockSize) {p q : BlockPos} (hbno : p.bno = q.bno)
    (hboff : p.boff = q.boff) :
    (keepInside size p).bno = (keepInside size q).bno ∧
      (keepInside size p).boff = (keepInside size q).boff := by
  have hiff : posPastEnd p size ↔ posPastEnd q size := by
    unfold posPastEnd
    rw [hbno, hboff]
  unfold keepInside
  by_cases hpast : posPastEnd q size
  · rw [if_pos hpast, if_pos (hiff.2 hpast)]
    exact ⟨rfl, rfl⟩
  · rw [if_neg hpast, if_neg (hiff.not.2 hpast)]
    exact ⟨hbno, hboff⟩

/-- The steps of the abstract block map, with their results. -/
inductive Cursor.Step (fs : FileSystem) : Cursor × Result → Op → Cursor × Result → Prop
  | find {c : Cursor} {r : Result} (p : BlockPos) :
      Step fs (c, r) (.find p) (c.find p.bno p.boff)
  | seek {c : Cursor} {r : Result} (offset : Int) (p : BlockPos) :
      p = blockAddPos fs offset ⟨c.bno, c.boff, 0⟩ →
      Step fs (c, r) (.seek offset) (c.find p.bno p.boff)
  | nextBlock {c : Cursor} {r : Result} :
      Step fs (c, r) .nextBlock (c.find ((c.bno + 1) % 2 ^ 32) 0)
  | grow {c : Cursor} {r : Result} {blocks : Nat} {o : Outcomes} {rc : Errno}
      {added : List BlockNo} : GrowEnds fs c blocks rc added →
      Step fs (c, r) (.grow blocks o) (c.append added, ⟨rc, added.head?⟩)
  | shrink {c : Cursor} {r : Result} (blocks : Nat) :
      Step fs (c, r) (.shrink blocks) (c.shrink blocks, ⟨.ok, none⟩)

/-- The concrete map represents the abstract one. -/
structure Simulates (fs : FileSystem) (base : BlockNo → Bool) (s : System)
    (c : Cursor × Result) : Prop where
  result : s.result = c.2
  layout : ∃ l, l.data = c.1.data ∧ Represents fs base s.state l
  cached : Cached s.state c.1.data
  bound : c.1.data ≠ [] → c.1.data.length < fs.blockMapDoublyBlocks
  bno : s.state.bpos.bno = c.1.bno
  boff : s.state.bpos.boff = c.1.boff
  offset : s.state.size.offset = c.1.offset

section Simulation

variable {s : System} {c : Cursor × Result}
  (hsingly : fs.blockMapSinglyBlocks = fs.blocksPerBlock * inodeBlocks)
include hsingly

section

variable (h : Simulates fs base s c)
include h

/-- A find of the concrete map is a find in the list. -/
theorem Simulates.find (p : BlockPos) :
    Simulates fs base (found (blockMapFind fs s.state p)) (c.1.find p.bno p.boff) := by
  obtain ⟨l, hdata, hrep⟩ := h.layout
  rcases blockMapFind_spec hsingly hrep (hdata ▸ h.cached) (hdata ▸ h.bound) p with
    ⟨hnone, hfind⟩ | ⟨b, s', hsome, hfind, hrep', hcached, hsize, hbpos⟩
  · rw [hdata] at hnone
    rw [hfind, Cursor.find, hnone]
    exact { h with result := rfl }
  · rw [hdata] at hsome hcached
    rw [hfind, Cursor.find, hsome]
    refine ⟨rfl, ⟨l, hdata, hrep'⟩, hcached, h.bound, ?_, ?_, ?_⟩
    · change s'.bpos.bno = p.bno
      rw [hbpos]
    · change s'.bpos.boff = p.boff
      rw [hbpos]
    · exact (congrArg BlockSize.offset hsize).trans h.offset

/-- A growth that does not wrap `size_t` is one of the list. -/
theorem Simulates.grow {blocks : Nat} {o : Outcomes} {rc : Errno}
    {added : List BlockNo} {s' : State} (hsafe : s.state.size.count + blocks < 2 ^ fs.sizeBits)
    (hgrow : blockMapGrow fs s.state blocks o = (rc, added, s')) :
    GrowEnds fs c.1 blocks rc added ∧
      Simulates fs base ⟨s', ⟨rc, added.head?⟩⟩ (c.1.append added, ⟨rc, added.head?⟩) := by
  obtain ⟨l, hdata, hrep⟩ := h.layout
  have hcount : s.state.size.count = c.1.data.length := by rw [hrep.located.count, hdata]
  rw [blockMapGrow, Nat.mod_eq_of_lt hsafe, hcount] at hgrow
  split at hgrow
  · rename_i hbig
    cases hgrow
    refine ⟨.inl ⟨rfl, rfl, hbig⟩, ⟨rfl, ⟨l, by simp [Cursor.append, hdata], hrep⟩, ?_, ?_, h.bno,
      h.boff, h.offset⟩⟩
    · simpa [Cursor.append] using h.cached
    · simpa [Cursor.append] using h.bound
  · rename_i hfits
    obtain ⟨hbpos, hoffset, ⟨l', hdata', hrep'⟩, hrc⟩ := growLoop_spec hsingly blocks hrep hgrow
    refine ⟨.inr hrc, rfl, ⟨l', by rw [hdata', hdata]; rfl, hrep'⟩, ?_, ?_, ?_, ?_, ?_⟩
    · intro hblock
      change (c.1.data ++ added)[s'.bpos.bno]? = some s'.bpos.block
      rw [hbpos] at hblock ⊢
      have hsome := h.cached hblock
      rw [List.getElem?_append_left (List.getElem?_eq_some_iff.1 hsome).1, hsome]
    · intro _
      change (c.1.data ++ added).length < _
      rw [List.length_append]
      omega
    · exact (congrArg BlockPos.bno hbpos).trans h.bno
    · exact (congrArg BlockPos.boff hbpos).trans h.boff
    · rw [h.offset] at hoffset
      exact hoffset

/-- A shrink is one of the list. -/
theorem Simulates.shrink (n : Nat) :
    Simulates fs base ⟨blockMapShrink fs s.state n, ⟨.ok, none⟩⟩ (c.1.shrink n, ⟨.ok, none⟩) := by
  obtain ⟨l, hdata, hrep⟩ := h.layout
  have hcount := hrep.located.count
  by_cases hnil : c.1.data = []
  · have hzero : s.state.size.count = 0 := by rw [hcount, hdata, hnil]; rfl
    rw [Cursor.shrink, if_pos hnil, blockMapShrink, if_pos hzero]
    exact { h with result := rfl }
  · have hlt := h.bound hnil
    rw [← hdata] at hnil hlt
    obtain ⟨⟨l', hdata', hrep', hcached⟩, hsize, hbpos⟩ :=
      blockMapShrink_spec hsingly n hrep (hdata ▸ h.cached) hlt.le hnil
    have hsame : shrunkSize s.state.size n = shrunkSize ⟨c.1.data.length, c.1.offset⟩ n := by
      rw [shrunkSize, shrunkSize, hcount, hdata, h.offset]
    rw [hsame] at hsize hbpos
    rw [hdata] at hnil
    rw [hdata] at hdata'
    obtain ⟨hbno, hboff⟩ := keepInside_congr (shrunkSize ⟨c.1.data.length, c.1.offset⟩ n)
      (q := ⟨c.1.bno, c.1.boff, 0⟩) h.bno h.boff
    simp only [Cursor.shrink, if_neg hnil]
    refine ⟨rfl, ⟨l', hdata', hrep'⟩, hdata' ▸ hcached, ?_, ?_, ?_, congrArg BlockSize.offset hsize⟩
    · intro _
      rw [hdata] at hlt
      exact (List.length_take_le' _ _).trans_lt hlt
    · exact (congrArg BlockPos.bno hbpos).trans hbno
    · exact (congrArg BlockPos.boff hbpos).trans hboff

/-- A safe operation of the concrete map is matched by the abstract one. -/
theorem Simulates.step {op : Op} {t : System} (hsafe : Safe fs s op)
    (hstep : step fs s op = some t) :
    ∃ c', Cursor.Step fs c op c' ∧ Simulates fs base t c' := by
  cases op with
  | find p =>
    cases hstep
    exact ⟨_, .find p, h.find hsingly p⟩
  | seek offset =>
    cases hstep
    have hpos : blockAddPos fs offset s.state.bpos =
        blockAddPos fs offset ⟨c.1.bno, c.1.boff, 0⟩ := by
      rw [← h.bno, ← h.boff]
      rfl
    exact ⟨_, .seek offset _ hpos, h.find hsingly _⟩
  | nextBlock =>
    cases hstep
    have hfind := h.find hsingly ⟨(s.state.bpos.bno + 1) % 2 ^ 32, 0, 0⟩
    rw [h.bno] at hfind
    refine ⟨_, .nextBlock, ?_⟩
    rw [blockMapNextBlock, h.bno]
    exact hfind
  | grow blocks o =>
    rcases hgrow : blockMapGrow fs s.state blocks o with ⟨rc, added, s'⟩
    simp only [BlockMap.step, hgrow, Option.some.injEq] at hstep
    subst hstep
    obtain ⟨hends, hsim⟩ := h.grow hsingly hsafe hgrow
    exact ⟨_, .grow hends, hsim⟩
  | shrink blocks =>
    cases hstep
    exact ⟨_, .shrink blocks, h.shrink hsingly blocks⟩

end

end Simulation

/-- The map of a new inode is the empty list. -/
theorem simulates_start : Simulates fs base (start base) (⟨[], 0, 0, 0⟩, ⟨.ok, none⟩) where
  result := rfl
  layout := by
    refine ⟨⟨[], [], []⟩, rfl, ⟨rfl, Level.nil, Level.nil, by simp⟩, List.nodup_nil, ?_, ?_, rfl⟩
    · simp [Layout.blocks]
    · simp [Layout.blocks, start]
  cached := fun hne => absurd rfl hne
  bound := fun hne => absurd rfl hne
  bno := rfl
  boff := rfl
  offset := rfl

/-- What a map provides while it represents a list of blocks. -/
structure Refines (fs : FileSystem) (base : BlockNo → Bool) (s : System) (c : Cursor × Result) :
    Prop where
  /-- The last operation returned what the abstract one returns. -/
  result : s.result = c.2
  count : s.state.size.count = c.1.data.length
  /-- A find below the count returns the data block. -/
  finds : ∀ p, p.bno < s.state.size.count → ∃ b, c.1.data[p.bno]? = some b ∧
    (blockMapFind fs s.state p).1 = .ok ∧ (blockMapFind fs s.state p).2.1 = b
  /-- A find at or above the count fails. -/
  fails : ∀ p, s.state.size.count ≤ p.bno → (blockMapFind fs s.state p).1 = .enxio
  /-- The blocks in use for the map are its data blocks and the tables its count needs. -/
  blocks : ∃ sing doub : List BlockNo,
    sing.length = pagesFor inodeBlocks fs.blocksPerBlock s.state.size.count ∧
    doub.length = pagesFor inodeBlocks fs.blocksPerBlock sing.length ∧
    (c.1.data ++ sing ++ doub).Nodup ∧
    (∀ b ∈ c.1.data ++ sing ++ doub, 0 < b ∧ b < fs.blocks ∧ base b = false) ∧
    ∀ b, s.state.marked b = true ↔ base b = true ∨ b ∈ c.1.data ++ sing ++ doub
  /-- No block is freed that is not in use. -/
  once : s.state.freedTwice = 0

/-- A map that represents a list provides all that. -/
theorem Simulates.refines {s : System} {c : Cursor × Result}
    (hsingly : fs.blockMapSinglyBlocks = fs.blocksPerBlock * inodeBlocks)
    (h : Simulates fs base s c) : Refines fs base s c := by
  obtain ⟨l, hdata, hrep⟩ := h.layout
  have hcount : s.state.size.count = c.1.data.length := by rw [hrep.located.count, hdata]
  have hfind := blockMapFind_spec hsingly hrep (hdata ▸ h.cached) (hdata ▸ h.bound)
  rw [hdata] at hfind
  refine ⟨h.result, hcount, ?_, ?_, ?_, hrep.owned.once⟩
  · intro p hp
    rcases hfind p with ⟨hnone, -⟩ | ⟨b, s', hsome, heq, -⟩
    · rw [List.getElem?_eq_none_iff] at hnone
      omega
    · exact ⟨b, hsome, by rw [heq], by rw [heq]⟩
  · intro p hp
    rcases hfind p with ⟨-, heq⟩ | ⟨b, s', hsome, -⟩
    · rw [heq]
    · have := (List.getElem?_eq_some_iff.1 hsome).1
      omega
  · refine ⟨l.sing, l.doub, ?_, hrep.located.singLevel.pages, ?_⟩
    · rw [hrep.located.count]
      exact hrep.located.dataLevel.pages
    · rw [← hdata]
      exact ⟨hrep.owned.nodup, hrep.owned.valid, hrep.owned.marked⟩

/-- A small file system with tables of 128 numbers. -/
private def smallFs : FileSystem := ⟨32, 1000, by decide, 512, by decide⟩

/-- Six blocks are added through a new table and one is removed again. -/
private def upAndDown : List Op :=
  [.grow 6 ((List.range' 1 7).map some), .find ⟨5, 0, 0⟩, .shrink 1, .find ⟨5, 0, 0⟩]

end Rtems.Rfs.BlockMap
