import Rtems.Core.Bsearch
import Rtems.Core.Patch

/-!
# The sparse disk

Only some blocks of the disk have a buffer. A table of keys, sorted by the block number, gives
the buffer of each of them; every other block reads as the fill pattern. The `int` of the return
values has 32 bits, as the block numbers have. The semaphore and the registration of the device
are not represented.
-/

namespace Rtems.Sparse

/-- `rtems_sparse_disk_key`: a block and the address of its buffer. -/
structure Key where
  /-- `block`. -/
  block : Nat
  /-- `data`. -/
  data : Nat
  deriving DecidableEq, Repr

/-- `rtems_sparse_disk`. -/
structure SparseDisk where
  /-- `media_block_size`. -/
  mediaBlockSize : Nat
  /-- `blocks_with_buffer`. -/
  blocksWithBuffer : Nat
  /-- `used_count`. -/
  usedCount : Nat
  /-- `key_table`. -/
  keyTable : List Key
  /-- The memory of the buffers. -/
  data : Nat → UInt8
  /-- `fill_pattern`. -/
  fillPattern : UInt8

/-- `data_size`: both factors are 32-bit numbers, and so is their product. -/
def dataSize (mediaBlockSize blocksWithBuffer : Nat) : Nat :=
  blocksWithBuffer * mediaBlockSize % 2 ^ 32

/-- `sparse_disk_initialize` over a memory with some earlier contents. -/
def initialState (mediaBlockSize blocksWithBuffer : Nat) (fillPattern : UInt8)
    (memory : Nat → UInt8) : SparseDisk where
  mediaBlockSize
  blocksWithBuffer
  usedCount := 0
  keyTable := (List.range blocksWithBuffer).map fun i => ⟨0, i * mediaBlockSize⟩
  data a := if a < dataSize mediaBlockSize blocksWithBuffer then fillPattern else memory a
  fillPattern

/-- The key of a block in the used part of the table, as `bsearch` finds it. -/
def findKey (sd : SparseDisk) (block : Nat) : Option Nat :=
  bsearch Key.block sd.keyTable sd.usedCount block

/-- `qsort` of the first entries of the table with `sparse_disk_compare`. -/
def sortKeys (n : Nat) (table : List Key) : List Key :=
  (table.take n).insertionSort (fun a b => a.block ≤ b.block) ++ table.drop n

/-- `sparse_disk_get_new_block`: the returned key is the entry of the table that was the first
unused one before the table was sorted. -/
def getNewBlock (sd : SparseDisk) (block : Nat) : Option (SparseDisk × Nat) :=
  if sd.usedCount < sd.blocksWithBuffer then
    let table := sd.keyTable.modify sd.usedCount fun key => { key with block }
    some ({ sd with
      usedCount := sd.usedCount + 1
      keyTable := sortKeys (sd.usedCount + 1) table }, sd.usedCount)
  else none

/-- The address of the buffer of a key. -/
def keyData (sd : SparseDisk) (key : Nat) : Nat :=
  (sd.keyTable[key]?.map Key.data).getD 0

/-- The conversion of a number of bytes to `int`. -/
def toInt (n : Nat) : Int :=
  if n < 2 ^ 31 then n else (n : Int) - 2 ^ 32

/-- `sparse_disk_read_block` into a buffer with some bytes left from an offset on. -/
def readBlock (sd : SparseDisk) (block : Nat) (buffer : Nat → UInt8) (ofs size : Nat) :
    (Nat → UInt8) × Int :=
  let bytesToCopy := min size sd.mediaBlockSize
  match findKey sd block with
  | some key =>
    (patch buffer ofs (fun j => sd.data (keyData sd key + j)) bytesToCopy, toInt bytesToCopy)
  | none => (patch buffer ofs (fun _ => sd.fillPattern) size, toInt bytesToCopy)

/-- Some of the bytes differ from the fill pattern. -/
def needsWriting (fillPattern : UInt8) (bytes : Nat → UInt8) (n : Nat) : Bool :=
  (List.range n).any fun i => bytes i ≠ fillPattern

/-- `sparse_disk_write_block` from a buffer with some bytes left from an offset on. -/
def writeBlock (sd : SparseDisk) (block : Nat) (bytes : Nat → UInt8) (size : Nat) :
    SparseDisk × Int :=
  let bytesToCopy := min size sd.mediaBlockSize
  match findKey sd block with
  | some key =>
    ({ sd with data := patch sd.data (keyData sd key) bytes bytesToCopy }, toInt bytesToCopy)
  | none =>
    if needsWriting sd.fillPattern bytes bytesToCopy then
      match getNewBlock sd block with
      | some (sd, key) =>
        ({ sd with data := patch sd.data (keyData sd key) bytes bytesToCopy }, toInt bytesToCopy)
      | none => (sd, -1)
    else (sd, toInt bytesToCopy)

/-- `rtems_blkdev_sg_buffer`. -/
structure SgBuffer where
  /-- `block`. -/
  block : Nat
  /-- `length`. -/
  length : Nat
  /-- The bytes of the buffer. -/
  buffer : Nat → UInt8
  /-- The block number has 32 bits. -/
  block_lt : block < 2 ^ 32

/-- `rtems_blkdev_request`. -/
structure Request where
  /-- The request is a read. -/
  read : Bool
  /-- `bufs`. -/
  bufs : List SgBuffer

/-- The state of the loops of `sparse_disk_read_write`. -/
structure Transfer where
  /-- The disk. -/
  disk : SparseDisk
  /-- `rv`. -/
  rv : Int

/-- The inner loop of `sparse_disk_read_write`, with a bound on the number of passes: the
transfer and the bytes of the buffer. -/
def bufferLoop (read : Bool) :
    Nat → Transfer → (Nat → UInt8) → Nat → Nat → Nat → Option (Transfer × (Nat → UInt8))
  | fuel, st, buffer, block, handled, size =>
    if 0 ≤ st.rv ∧ 0 < size then
      match fuel with
      | 0 => none
      | fuel + 1 =>
        let next := (block + 1) % 2 ^ 32
        if read then
          let (buffer, rv) := readBlock st.disk block buffer handled size
          bufferLoop read fuel ⟨st.disk, rv⟩ buffer next (handled + rv.toNat) (size - rv.toNat)
        else
          let (disk, rv) := writeBlock st.disk block (fun j => buffer (handled + j)) size
          bufferLoop read fuel ⟨disk, rv⟩ buffer next (handled + rv.toNat) (size - rv.toNat)
    else some (st, buffer)

/-- The outer loop of `sparse_disk_read_write`: the transfer and the buffers. -/
def requestLoop (read : Bool) : Transfer → List SgBuffer → Option (Transfer × List SgBuffer)
  | st, [] => some (st, [])
  | st, sg :: bufs =>
    if 0 ≤ st.rv then
      (bufferLoop read sg.length st sg.buffer sg.block 0 sg.length).bind fun (st, buffer) =>
        (requestLoop read st bufs).map fun (st, bufs) => (st, { sg with buffer } :: bufs)
    else some (st, sg :: bufs)

/-- The status that a request is finished with. -/
inductive Status
  | successful
  | ioError
  deriving DecidableEq, Repr

/-- `sparse_disk_read_write`: the disk, the status and the buffers. -/
def readWrite (sd : SparseDisk) (req : Request) :
    Option (SparseDisk × Status × List SgBuffer) :=
  (requestLoop req.read ⟨sd, 0⟩ req.bufs).map fun (st, bufs) =>
    (st.disk, if st.rv < 0 then .ioError else .successful, bufs)

end Rtems.Sparse
