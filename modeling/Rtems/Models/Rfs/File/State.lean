import Rtems.Core.Run

/-!
# Files of the RTEMS file system

A file is a sequence of blocks, as its block map gives them, and the number of bytes used in
the last one, where zero stands for all of them. The open handles share the file; each has
an offset in the I/O layer and a block position of its own, from which the transfers start.
A transfer works on one block after the other. The contents of a buffer that is requested
without being read, and of a new block, are an input of the operation, and there are no
I/O or space errors.
-/

namespace Rtems.Rfs.File

variable {β : Type}

/-- A block position, `rtems_rfs_block_pos`. -/
structure BlockPos where
  /-- The block index. -/
  bno : Nat
  /-- The offset in the block. -/
  boff : Nat
  deriving DecidableEq, Repr

/-- A block size, `rtems_rfs_block_size`. -/
structure BlockSize where
  /-- The number of blocks. -/
  count : Nat
  /-- The bytes used in the last block, zero if all are. -/
  offset : Nat
  deriving DecidableEq, Repr

/-- The block map of a file with the contents of its blocks. -/
structure Map (β : Type) where
  /-- The blocks. -/
  blocks : List (Nat → β)
  /-- `size.offset`. -/
  offset : Nat

/-- The size of a map; its count is the number of blocks. -/
def Map.size (m : Map β) : BlockSize :=
  ⟨m.blocks.length, m.offset⟩

/-- `rtems_rfs_block_get_bpos`. -/
def getBpos (bs pos : Nat) : BlockPos :=
  ⟨pos / bs, pos % bs⟩

/-- `rtems_rfs_block_get_size`. -/
def BlockSize.bytes (bs : Nat) (size : BlockSize) : Nat :=
  if size.count = 0 then 0
  else (size.count - 1) * bs + if size.offset = 0 then bs else size.offset

/-- `rtems_rfs_block_pos_last_block`. -/
def BlockPos.isLastBlock (bpos : BlockPos) (size : BlockSize) : Bool :=
  (bpos.bno = 0 ∧ size.count = 0) ∨ (size.count ≠ 0 ∧ bpos.bno = size.count - 1)

/-- `rtems_rfs_block_pos_past_end`. -/
def BlockPos.isPastEnd (bpos : BlockPos) (size : BlockSize) : Bool :=
  (bpos.bno ≠ 0 ∧ size.count = 0) ∨ bpos.bno ≥ size.count ∨
    (bpos.bno = size.count - 1 ∧ bpos.boff > size.offset)

/-- `rtems_rfs_block_pos_block_past_end`. -/
def BlockPos.isBlockPastEnd (bpos : BlockPos) (size : BlockSize) : Bool :=
  (bpos.bno ≠ 0 ∧ size.count = 0) ∨ bpos.bno ≥ size.count

/-- `rtems_rfs_block_size_get_bpos`. -/
def BlockSize.getBpos (size : BlockSize) : BlockPos :=
  ⟨if size.offset ≠ 0 then size.count - 1 else size.count, size.offset⟩

/-- `rtems_rfs_block_map_find`: the index of the block, if the map has it. -/
def Map.find (m : Map β) (bpos : BlockPos) : Option Nat :=
  if bpos.isBlockPastEnd m.size then none else some bpos.bno

/-- `rtems_rfs_block_map_grow` by one block: the new block has any contents. -/
def Map.grow (m : Map β) (junk : Nat → Nat → β) : Map β :=
  ⟨m.blocks ++ [junk m.blocks.length], 0⟩

/-- `rtems_rfs_buffer_handle_request`: the contents of the buffer of a block. -/
def Map.request (m : Map β) (index : Nat) (read : Bool) (junk : Nat → Nat → β) : Nat → β :=
  if read then m.blocks[index]?.getD (junk index) else junk index

/-- `memcpy` to the place of a buffer. -/
def copyTo (buffer : Nat → β) (boff : Nat) (data : Nat → β) (size : Nat) : Nat → β :=
  fun j => if boff ≤ j ∧ j < boff + size then data (j - boff) else buffer j

/-- What the start of a transfer gives. -/
structure Started (β : Type) where
  /-- The map, which may have grown. -/
  map : Map β
  /-- The index of the block. -/
  index : Nat
  /-- The contents of its buffer. -/
  buffer : Nat → β
  /-- The bytes from the position to the end of the block or of the file. -/
  available : Nat

/-- `rtems_rfs_file_io_start` for a write of `count` bytes. -/
def ioStartWrite (bs : Nat) (m : Map β) (bpos : BlockPos) (count : Nat)
    (junk : Nat → Nat → β) : Started β :=
  match m.find bpos with
  | some index =>
    ⟨m, index, m.request index (bpos.boff ≠ 0 ∨ count < bs) junk, bs - bpos.boff⟩
  | none =>
    ⟨m.grow junk, m.blocks.length, (m.grow junk).request m.blocks.length false junk,
      bs - bpos.boff⟩

/-- The position after a transfer of `size` bytes in its block. -/
def BlockPos.advance (bs : Nat) (bpos : BlockPos) (size : Nat) : BlockPos :=
  if bpos.boff + size ≥ bs then ⟨bpos.bno + 1, bpos.boff + size - bs⟩
  else ⟨bpos.bno, bpos.boff + size⟩

/-- An open file: the block map, and the size that the handles share. -/
structure Shared (β : Type) where
  /-- The block map. -/
  map : Map β
  /-- `shared->size`. -/
  size : BlockSize

/-- `rtems_rfs_file_io_end` for a write; the buffer is marked dirty and released. -/
def ioEndWrite (bs : Nat) (f : Shared β) (index : Nat) (buffer : Nat → β) (bpos : BlockPos)
    (size : Nat) : Shared β × BlockPos :=
  let map : Map β := { f.map with blocks := f.map.blocks.set index buffer }
  let bpos := bpos.advance bs size
  if bpos.isPastEnd map.size then
    let map := { map with offset := bpos.boff }
    (⟨map, map.size⟩, bpos)
  else (⟨map, f.size⟩, bpos)

/-- One pass of the loop of `rtems_rfs_rtems_file_write`: the file, the position and the
number of bytes written. -/
def writePass (bs : Nat) (junk : Nat → Nat → β) (f : Shared β) (bpos : BlockPos) (data : Nat → β)
    (count : Nat) : Shared β × BlockPos × Nat :=
  let started := ioStartWrite bs f.map bpos count junk
  let size := if started.available > count then count else started.available
  let buffer := copyTo started.buffer bpos.boff data size
  let (f, bpos) := ioEndWrite bs { f with map := started.map } started.index buffer bpos size
  (f, bpos, size)

/-- The loop of `rtems_rfs_rtems_file_write`, with a bound on the number of passes. -/
def writeLoop (bs : Nat) (junk : Nat → Nat → β) :
    Nat → Shared β → BlockPos → (Nat → β) → Nat → Option (Shared β × BlockPos)
  | _, f, bpos, _, 0 => some (f, bpos)
  | 0, _, _, _, _ + 1 => none
  | fuel + 1, f, bpos, data, count + 1 =>
    let (f, bpos, size) := writePass bs junk f bpos data (count + 1)
    writeLoop bs junk fuel f bpos (fun j => data (j + size)) (count + 1 - size)

/-- `rtems_rfs_file_io_start` for a read: nothing is available past the last block. A
position behind the end of the last block has no result; the source would go on past the
buffer. -/
def ioStartRead (bs : Nat) (m : Map β) (bpos : BlockPos) (junk : Nat → Nat → β) :
    Option (Started β) :=
  match m.find bpos with
  | none => some ⟨m, 0, junk 0, 0⟩
  | some index =>
    let size := if bpos.isLastBlock m.size ∧ m.offset ≠ 0 then m.offset else bs
    if bpos.boff ≤ size then some ⟨m, index, m.request index true junk, size - bpos.boff⟩ else none

/-- The loop of `rtems_rfs_rtems_file_read`, with a bound on the number of passes: the
position at its end and the bytes. -/
def readLoop (bs : Nat) (junk : Nat → Nat → β) (m : Map β) :
    Nat → BlockPos → Nat → Option (BlockPos × List β)
  | _, bpos, 0 => some (bpos, [])
  | 0, _, _ + 1 => none
  | fuel + 1, bpos, count + 1 =>
    (ioStartRead bs m bpos junk).bind fun started =>
      if started.available = 0 then some (bpos, [])
      else
        let size := if started.available > count + 1 then count + 1 else started.available
        let bytes := (List.range size).map fun j => started.buffer (bpos.boff + j)
        (readLoop bs junk m fuel (bpos.advance bs size) (count + 1 - size)).map
          fun (bpos, rest) => (bpos, bytes ++ rest)

/-- One pass of the loop of `rtems_rfs_file_set_size` that grows the file: the map and the
number of bytes that were set to zero. Only the last pass reads its block. -/
def growPass [Zero β] (bs : Nat) (junk : Nat → Nat → β) (m : Map β) (count : Nat) : Map β × Nat :=
  let bpos := m.size.getBpos
  let (m, index) :=
    match m.find bpos with
    | some index => (m, index)
    | none => (m.grow junk, m.blocks.length)
  let isShort := count < bs - bpos.boff
  let length := if isShort then count + bpos.boff else bs
  let m := { m with offset := if isShort then length else 0 }
  let buffer := copyTo (m.request index isShort junk) bpos.boff (fun _ => 0) (length - bpos.boff)
  ({ m with blocks := m.blocks.set index buffer }, length - bpos.boff)

/-- The loop of `rtems_rfs_file_set_size` that grows the file, with a bound on the number of
passes. -/
def growLoop [Zero β] (bs : Nat) (junk : Nat → Nat → β) : Nat → Map β → Nat → Option (Map β)
  | _, m, 0 => some m
  | 0, _, _ + 1 => none
  | fuel + 1, m, count + 1 =>
    let (m, size) := growPass bs junk m (count + 1)
    growLoop bs junk fuel m (count + 1 - size)

/-- The part of `rtems_rfs_file_set_size` that shrinks the file, with the position of the
handle. -/
def shrink (bs : Nat) (m : Map β) (bpos : BlockPos) (newSize : Nat) : Map β × BlockPos :=
  let blocks := m.blocks.length - ((newSize - 1) / bs + 1)
  let m : Map β := ⟨m.blocks.take (m.blocks.length - blocks), newSize % bs⟩
  (m, if bpos.isPastEnd m.size then m.size.getBpos else bpos)

/-- `rtems_rfs_file_set_size`, with the position of the handle. -/
def setSize [Zero β] (bs : Nat) (junk : Nat → Nat → β) (f : Shared β) (bpos : BlockPos)
    (newSize : Nat) : Option (Shared β × BlockPos) :=
  let size := f.size.bytes bs
  if size = newSize then some (f, bpos)
  else if newSize = 0 then some (⟨⟨[], 0⟩, ⟨0, 0⟩⟩, bpos)
  else if size < newSize then
    (growLoop bs junk (newSize - size) f.map (newSize - size)).map fun m => (⟨m, m.size⟩, bpos)
  else
    let (m, bpos) := shrink bs f.map bpos newSize
    some (⟨m, m.size⟩, bpos)

/-- An open handle of a file. -/
structure Handle where
  /-- `iop->offset`. -/
  offset : Nat
  /-- The block position. -/
  bpos : BlockPos
  /-- The file was opened for appending. -/
  isAppend : Bool
  deriving DecidableEq, Repr

/-- `rtems_rfs_rtems_file_lseek` to an offset, by `rtems_rfs_file_seek`. -/
def lseek (bs : Nat) (f : Shared β) (h : Handle) (pos : Nat) : Handle :=
  if pos ≤ f.size.bytes bs then
    { h with
      offset := pos
      bpos := getBpos bs pos }
  else { h with offset := pos }

/-- `rtems_rfs_rtems_file_read`. -/
def fileRead (bs : Nat) (junk : Nat → Nat → β) (f : Shared β) (h : Handle) (count : Nat) :
    Option (Handle × List β) :=
  if h.offset < f.size.bytes bs then
    (readLoop bs junk f.map count h.bpos count).map fun (bpos, bytes) =>
      ({ h with
          offset := h.offset + bytes.length
          bpos }, bytes)
  else some (h, [])

/-- `rtems_rfs_rtems_file_write`. -/
def fileWrite [Zero β] (bs : Nat) (junk : Nat → Nat → β) (f : Shared β) (h : Handle)
    (data : Nat → β) (count : Nat) : Option (Shared β × Handle) :=
  let pos := h.offset
  let size := f.size.bytes bs
  let ready :=
    if pos > size then
      (setSize bs junk f h.bpos pos).map fun (f, _) => (f, getBpos bs pos, pos)
    else if pos < size ∧ h.isAppend then some (f, getBpos bs size, size)
    else some (f, h.bpos, pos)
  ready.bind fun (f, bpos, pos) =>
    (writeLoop bs junk count f bpos data count).map fun (f, bpos) =>
      (f, { h with
        offset := pos + count
        bpos })

/-- `rtems_rfs_rtems_file_ftruncate`. -/
def ftruncate [Zero β] (bs : Nat) (junk : Nat → Nat → β) (f : Shared β) (h : Handle)
    (length : Nat) : Option (Shared β × Handle) :=
  (setSize bs junk f h.bpos length).map fun (f, bpos) => (f, { h with bpos })

end Rtems.Rfs.File
