import Rtems.Core.Run

/-!
# Block maps of the RTEMS file system

Model of `rtems_rfs_block_map`: find, seek, next block, grow and shrink. The blocks of the
file system are seen as tables of block numbers, as the map reads and writes them through
its two buffer handles; a handle is the number of the block it holds, and a request gives
the contents of the block. The bitmap of the blocks in use is a function of the block
number. The outcomes of the block allocations are an input of a growth.
-/

namespace Rtems.Rfs.BlockMap

/-- A block number, `rtems_rfs_block_no`. -/
abbrev BlockNo := Nat

/-- The slots of an inode, `RTEMS_RFS_INODE_BLOCKS`. -/
def inodeBlocks : Nat := 5

/-- The parameters of a file system. -/
structure FileSystem where
  /-- The width of `size_t`. -/
  sizeBits : Nat
  /-- The number of blocks, which the superblock keeps in 32 bits. -/
  blocks : Nat
  blocks_lt : blocks < 2 ^ 32
  blockSize : Nat
  blockSize_le : 512 ≤ blockSize

namespace FileSystem

variable (fs : FileSystem)

/-- The numbers in a table block, as set in `rtems_rfs_fs_read_superblock`. -/
def blocksPerBlock : Nat := fs.blockSize / 4

/-- The greatest count of a singly indirect map. -/
def blockMapSinglyBlocks : Nat := fs.blocksPerBlock * inodeBlocks % 2 ^ fs.sizeBits

/-- The bound on the count of a doubly indirect map. -/
def blockMapDoublyBlocks : Nat :=
  fs.blocksPerBlock * fs.blocksPerBlock * inodeBlocks % 2 ^ fs.sizeBits

end FileSystem

/-- The error numbers of the operations. -/
inductive Errno where
  | ok | enxio | efbig | enospc | eio
  deriving DecidableEq

/-- A block position, `rtems_rfs_block_pos`. -/
structure BlockPos where
  bno : Nat
  boff : Nat
  /-- The block number found for the position, zero if none. -/
  block : BlockNo
  deriving DecidableEq

/-- A block size, `rtems_rfs_block_size`. -/
structure BlockSize where
  count : Nat
  offset : Nat
  deriving DecidableEq

/-- A block map with the blocks of its file system. -/
structure State where
  dirty : Bool
  size : BlockSize
  bpos : BlockPos
  lastMapBlock : BlockNo
  lastDataBlock : BlockNo
  /-- The slots of the inode. -/
  blocks : Nat → BlockNo
  /-- The block held by the singly buffer handle. -/
  singlyBuffer : BlockNo
  /-- The block held by the doubly buffer handle. -/
  doublyBuffer : BlockNo
  /-- The contents of each block, as a table of block numbers. -/
  table : BlockNo → Nat → BlockNo
  /-- The bitmap of the blocks in use. -/
  marked : BlockNo → Bool
  /-- How often a block was freed that was not in use. -/
  freedTwice : Nat

/-- The outcomes of block allocations: a failure or the block the bitmap search finds. -/
abbrev Outcomes := List (Option BlockNo)

/-- Allocate a block, `rtems_rfs_group_bitmap_alloc`: only unused blocks of the file system
other than the superblock can be found. -/
def groupBitmapAlloc (fs : FileSystem) (s : State) :
    Outcomes → Option BlockNo × State × Outcomes
  | [] => (none, s, [])
  | none :: rest => (none, s, rest)
  | some b :: rest =>
    if 0 < b ∧ b < fs.blocks ∧ s.marked b = false then
      (some b, { s with marked := Function.update s.marked b true }, rest)
    else (none, s, rest)

/-- Free a block, `rtems_rfs_group_bitmap_free`. -/
def groupBitmapFree (s : State) (b : BlockNo) : State :=
  { s with
    marked := Function.update s.marked b false
    freedTwice := if s.marked b then s.freedTwice else s.freedTwice + 1 }

/-- The two buffer handles of a map. -/
inductive Handle where
  | singly | doubly
  deriving DecidableEq

/-- The block a handle holds. -/
def State.held (s : State) : Handle → BlockNo
  | .singly => s.singlyBuffer
  | .doubly => s.doublyBuffer

/-- Attach a handle to a block, `rtems_rfs_buffer_handle_request`. -/
def handleRequest (s : State) (h : Handle) (block : BlockNo) : State :=
  match h with
  | .singly => { s with singlyBuffer := block }
  | .doubly => { s with doublyBuffer := block }

/-- Read a number of the block a handle holds, `rtems_rfs_block_get_number`. -/
def getNumber (s : State) (h : Handle) (i : Nat) : BlockNo := s.table (s.held h) i

/-- Write a number of the block a handle holds, `rtems_rfs_block_set_number`. -/
def setNumber (s : State) (h : Handle) (i : Nat) (n : BlockNo) : State :=
  { s with
    table := Function.update s.table (s.held h) (Function.update (s.table (s.held h)) i n) }

/-- Find a block number in a table, `rtems_rfs_block_find_indirect`. -/
def findIndirect (fs : FileSystem) (s : State) (h : Handle) (block : BlockNo) (offset : Nat) :
    BlockNo × State :=
  let s := handleRequest s h block
  let result := getNumber s h offset
  let result := if (result + 1) % 2 ^ 32 = 0 then 0 else result
  (if fs.blocks ≤ result then 0 else result, s)

/-- `rtems_rfs_block_pos_block_past_end`. -/
def posBlockPastEnd (p : BlockPos) (size : BlockSize) : Prop :=
  (p.bno ≠ 0 ∧ size.count = 0) ∨ size.count ≤ p.bno

instance (p : BlockPos) (size : BlockSize) : Decidable (posBlockPastEnd p size) :=
  inferInstanceAs (Decidable (_ ∨ _))

/-- Look a block up in the tables of the map. -/
def lookup (fs : FileSystem) (s : State) (bno : Nat) : Errno × BlockNo × State :=
  if s.size.count ≤ inodeBlocks then (.ok, s.blocks bno, s)
  else
    let direct := bno % fs.blocksPerBlock
    let singly := bno / fs.blocksPerBlock
    if s.size.count ≤ fs.blockMapSinglyBlocks then
      let (block, s) := findIndirect fs s .singly (s.blocks singly) direct
      (.ok, block, s)
    else
      let doubly := singly / fs.blocksPerBlock
      let singly := singly % fs.blocksPerBlock
      if s.size.count < fs.blockMapDoublyBlocks then
        let (singly, s) := findIndirect fs s .doubly (s.blocks doubly) singly
        let (block, s) := findIndirect fs s .singly singly direct
        (.ok, block, s)
      else (.enxio, 0, s)

/-- Find the block of a position, `rtems_rfs_block_map_find`. -/
def blockMapFind (fs : FileSystem) (s : State) (bpos : BlockPos) : Errno × BlockNo × State :=
  if posBlockPastEnd bpos s.size then (.enxio, 0, s)
  else
    let (rc, block, s) :=
      if bpos.bno = s.bpos.bno ∧ s.bpos.block ≠ 0 then (.ok, s.bpos.block, s)
      else lookup fs s bpos.bno
    if rc = .ok then
      (rc, block, { s with
        bpos := { bpos with
          block := block } })
    else (rc, block, s)

/-- The absolute position of a block position, `rtems_rfs_block_get_pos`. -/
def blockGetPos (fs : FileSystem) (bpos : BlockPos) : Nat :=
  (bpos.bno * fs.blockSize + bpos.boff) % 2 ^ fs.sizeBits

/-- Move a block position by a relative offset, `rtems_rfs_block_add_pos`. -/
def blockAddPos (fs : FileSystem) (offset : Int) (bpos : BlockPos) : BlockPos :=
  let pos := ((blockGetPos fs bpos + offset) % 2 ^ 64).toNat
  ⟨pos / fs.blockSize % 2 ^ 32, pos % fs.blockSize, 0⟩

/-- Move relative to the position of the map, `rtems_rfs_block_map_seek`. -/
def blockMapSeek (fs : FileSystem) (s : State) (offset : Int) : Errno × BlockNo × State :=
  blockMapFind fs s (blockAddPos fs offset s.bpos)

/-- Move to the next block, `rtems_rfs_block_map_next_block`. -/
def blockMapNextBlock (fs : FileSystem) (s : State) : Errno × BlockNo × State :=
  blockMapFind fs s ⟨(s.bpos.bno + 1) % 2 ^ 32, 0, 0⟩

/-- Allocate a table block and attach a handle to it, `rtems_rfs_block_map_indirect_alloc`.
When upping, the slots of the inode move into the table. -/
def indirectAlloc (fs : FileSystem) (s : State) (h : Handle) (upping : Bool) (o : Outcomes) :
    Option BlockNo × State × Outcomes :=
  match groupBitmapAlloc fs s o with
  | (none, s, o) => (none, s, o)
  | (some newBlock, s, o) =>
    let s := handleRequest s h newBlock
    let cleared : Nat → BlockNo := fun _ => 0xffffffff
    let s :=
      if upping then
        { s with
          table := Function.update s.table newBlock
            fun i => if i < inodeBlocks then s.blocks i else cleared i
          blocks := fun _ => 0 }
      else { s with table := Function.update s.table newBlock cleared }
    (some newBlock, { s with lastMapBlock := newBlock }, o)

/-- Set a slot of the inode. -/
def setSlot (s : State) (i : Nat) (b : BlockNo) : State :=
  { s with blocks := Function.update s.blocks i b }

/-- Attach a handle to the table for the number with the index `n`, where the tables are in
the inode: to a new table if the number is the first one of a table, or the first one that
does not fit into the inode. -/
def attachTable (fs : FileSystem) (s : State) (h : Handle) (n : Nat) (upping : Bool)
    (o : Outcomes) : Bool × State × Outcomes :=
  let offset := n % fs.blocksPerBlock
  let slot := n / fs.blocksPerBlock
  if offset = 0 ∨ (slot = 0 ∧ offset = inodeBlocks) then
    match indirectAlloc fs s h upping o with
    | (none, s, o) => (false, s, o)
    | (some newBlock, s, o) => (true, setSlot s slot newBlock, o)
  else (true, handleRequest s h (s.blocks slot), o)

/-- Attach the singly handle to the table for the next block of a singly indirect map. -/
def growSingly (fs : FileSystem) (s : State) (o : Outcomes) : Bool × State × Outcomes :=
  attachTable fs s .singly s.size.count (s.size.count == inodeBlocks) o

/-- Attach the doubly handle to the table for the next singly table of a doubly indirect
map. -/
def growTable (fs : FileSystem) (s : State) (o : Outcomes) : Bool × State × Outcomes :=
  attachTable fs s .doubly (s.size.count / fs.blocksPerBlock)
    (s.size.count == fs.blockMapSinglyBlocks) o

/-- Attach the singly handle to the table for the next block of a doubly indirect map, if
necessary a new one. -/
def growDoubly (fs : FileSystem) (s : State) (o : Outcomes) : Bool × State × Outcomes :=
  let direct := s.size.count % fs.blocksPerBlock
  let doubly := s.size.count / fs.blocksPerBlock / fs.blocksPerBlock
  let singly := s.size.count / fs.blocksPerBlock % fs.blocksPerBlock
  if direct = 0 then
    match indirectAlloc fs s .singly false o with
    | (none, s, o) => (false, s, o)
    | (some singlyBlock, s, o) =>
      match growTable fs s o with
      | (false, s, o) => (false, groupBitmapFree s singlyBlock, o)
      | (true, s, o) => (true, setNumber s .doubly singly singlyBlock, o)
  else
    let s := handleRequest s .doubly (s.blocks doubly)
    (true, handleRequest s .singly (getNumber s .doubly singly), o)

/-- Count a block that was added. -/
def countBlock (s : State) (block : BlockNo) : State :=
  { s with
    size := ⟨s.size.count + 1, 0⟩
    lastDataBlock := block
    dirty := true }

/-- Add one block to a map, the body of the loop of `rtems_rfs_block_map_grow`. -/
def growStep (fs : FileSystem) (s : State) (o : Outcomes) : Option BlockNo × State × Outcomes :=
  match groupBitmapAlloc fs s o with
  | (none, s, o) => (none, s, o)
  | (some block, s, o) =>
    if s.size.count < inodeBlocks then
      (some block, countBlock (setSlot s s.size.count block) block, o)
    else
      let grown :=
        if s.size.count < fs.blockMapSinglyBlocks then growSingly fs s o else growDoubly fs s o
      match grown with
      | (false, s, o) => (none, groupBitmapFree s block, o)
      | (true, s, o) =>
        (some block,
          countBlock (setNumber s .singly (s.size.count % fs.blocksPerBlock) block) block, o)

/-- Add blocks one at a time until one cannot be added; the blocks added are returned in
order. -/
def growLoop (fs : FileSystem) : Nat → State → Outcomes → Errno × List BlockNo × State
  | 0, s, _ => (.ok, [], s)
  | blocks + 1, s, o =>
    match growStep fs s o with
    | (none, s, _) => (.enospc, [], s)
    | (some block, s, o) =>
      let (rc, added, s) := growLoop fs blocks s o
      (rc, block :: added, s)

/-- Add blocks to a map, `rtems_rfs_block_map_grow`. The check of the new count is made in
`size_t`. -/
def blockMapGrow (fs : FileSystem) (s : State) (blocks : Nat) (o : Outcomes) :
    Errno × List BlockNo × State :=
  if fs.blockMapDoublyBlocks ≤ (s.size.count + blocks) % 2 ^ fs.sizeBits then (.efbig, [], s)
  else growLoop fs blocks s o

/-- Free a table whose last number is removed, `rtems_rfs_block_map_indirect_shrink`; the
first table moves back into the inode when its numbers fit there. -/
def indirectShrink (s : State) (h : Handle) (indirect index : Nat) : State :=
  if index = 0 ∨ (indirect = 0 ∧ index = inodeBlocks) then
    let blockToFree := s.blocks indirect
    let s :=
      if indirect = 0 ∧ index = inodeBlocks then
        { s with
          blocks := fun b => if b < inodeBlocks then getNumber s h b else s.blocks b }
      else setSlot s indirect 0
    { groupBitmapFree s blockToFree with
      lastMapBlock := blockToFree }
  else s

/-- Remove the last block from the tables, the body of the loop of
`rtems_rfs_block_map_shrink` up to the release of the block. -/
def shrinkTables (fs : FileSystem) (s : State) : Option (BlockNo × State) :=
  let block := s.size.count - 1
  if block < inodeBlocks then some (s.blocks block, setSlot s block 0)
  else
    let direct := block % fs.blocksPerBlock
    let singly := block / fs.blocksPerBlock
    if block < fs.blockMapSinglyBlocks then
      let s := handleRequest s .singly (s.blocks singly)
      some (getNumber s .singly direct, indirectShrink s .singly singly direct)
    else if block < fs.blockMapDoublyBlocks then
      let doubly := singly / fs.blocksPerBlock
      let doublySingly := singly % fs.blocksPerBlock
      let s := handleRequest s .doubly (s.blocks doubly)
      let singly := getNumber s .doubly doublySingly
      let s := handleRequest s .singly singly
      let blockToFree := getNumber s .singly direct
      if direct = 0 then
        let s := { groupBitmapFree s singly with
          lastMapBlock := singly }
        some (blockToFree, indirectShrink s .doubly doubly doublySingly)
      else some (blockToFree, s)
    else none

/-- Remove one block from a map, the body of the loop of `rtems_rfs_block_map_shrink`. -/
def shrinkStep (fs : FileSystem) (s : State) : Option State :=
  match shrinkTables fs s with
  | none => none
  | some (blockToFree, s) =>
    some { groupBitmapFree s blockToFree with
      size := ⟨s.size.count - 1, 0⟩
      lastDataBlock := blockToFree
      dirty := true }

/-- Remove blocks one at a time; an impossible count ends the loop. -/
def shrinkLoop (fs : FileSystem) : Nat → State → State
  | 0, s => s
  | blocks + 1, s =>
    match shrinkStep fs s with
    | none => s
    | some s => shrinkLoop fs blocks s

/-- `rtems_rfs_block_pos_past_end`. -/
def posPastEnd (p : BlockPos) (size : BlockSize) : Prop :=
  (p.bno ≠ 0 ∧ size.count = 0) ∨ size.count ≤ p.bno ∨
    (p.bno = size.count - 1 ∧ size.offset < p.boff)

instance (p : BlockPos) (size : BlockSize) : Decidable (posPastEnd p size) :=
  inferInstanceAs (Decidable (_ ∨ _ ∨ _))

/-- The position of the end, `rtems_rfs_block_size_get_bpos`. -/
def sizeGetBpos (size : BlockSize) : BlockPos :=
  ⟨if size.offset = 0 then size.count else size.count - 1, size.offset, 0⟩

/-- A position kept inside a map. -/
def keepInside (size : BlockSize) (p : BlockPos) : BlockPos :=
  if posPastEnd p size then sizeGetBpos size else p

/-- Remove blocks from a map, `rtems_rfs_block_map_shrink`. -/
def blockMapShrink (fs : FileSystem) (s : State) (blocks : Nat) : State :=
  if s.size.count = 0 then s
  else
    let s := shrinkLoop fs (min blocks s.size.count) s
    let s :=
      if s.size.count = 0 then
        { s with
          lastMapBlock := 0
          lastDataBlock := 0 }
      else s
    { s with bpos := keepInside s.size s.bpos }

/-- What an operation returns: the error number and the block found or first added. -/
structure Result where
  rc : Errno
  block : Option BlockNo
  deriving DecidableEq

/-- A block map with the result of the last operation. -/
structure System where
  state : State
  result : Result

/-- The operations on a block map. -/
inductive Op where
  | find (bpos : BlockPos)
  | seek (offset : Int)
  | nextBlock
  /-- A growth, with the outcomes of the block allocations. -/
  | grow (blocks : Nat) (outcomes : Outcomes)
  | shrink (blocks : Nat)

/-- The system after a find. -/
def found (r : Errno × BlockNo × State) : System := ⟨r.2.2, ⟨r.1, some r.2.1⟩⟩

/-- One operation. -/
def step (fs : FileSystem) (s : System) : Op → Option System
  | .find bpos => some (found (blockMapFind fs s.state bpos))
  | .seek offset => some (found (blockMapSeek fs s.state offset))
  | .nextBlock => some (found (blockMapNextBlock fs s.state))
  | .grow blocks o =>
    let (rc, added, state) := blockMapGrow fs s.state blocks o
    some ⟨state, ⟨rc, added.head?⟩⟩
  | .shrink blocks => some ⟨blockMapShrink fs s.state blocks, ⟨.ok, none⟩⟩

/-- The new count of a growth does not wrap around in `size_t`. -/
def Safe (fs : FileSystem) (s : System) : Op → Prop
  | .grow blocks _ => s.state.size.count + blocks < 2 ^ fs.sizeBits
  | _ => True

instance (fs : FileSystem) (s : System) : (op : Op) → Decidable (Safe fs s op)
  | .grow _ _ => inferInstanceAs (Decidable (_ < _))
  | .find _ | .seek _ | .nextBlock | .shrink _ => inferInstanceAs (Decidable True)

/-- The map of a new inode, beside the blocks already in use. -/
def start (base : BlockNo → Bool) : System where
  state :=
    { dirty := false
      size := ⟨0, 0⟩
      bpos := ⟨0, 0, 0⟩
      lastMapBlock := 0
      lastDataBlock := 0
      blocks := fun _ => 0
      singlyBuffer := 0
      doublyBuffer := 0
      table := fun _ _ => 0
      marked := base
      freedTwice := 0 }
  result := ⟨.ok, none⟩

end Rtems.Rfs.BlockMap
