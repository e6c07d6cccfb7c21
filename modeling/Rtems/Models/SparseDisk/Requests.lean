import Mathlib.Data.Finset.Card
import Rtems.Core.Run
import Rtems.Models.SparseDisk.Blocks

/-!
# Requests and the disk they are about

The abstract disk has contents for each block and remembers which blocks have a buffer. A
request cuts its buffers into blocks, and a write stops at the first block that would need a
buffer when there is none left.
-/

namespace Rtems.Sparse

/-- A part of a buffer that belongs to one block. -/
structure Chunk where
  /-- The block. -/
  block : Nat
  /-- The bytes. -/
  bytes : Nat → UInt8
  /-- The number of bytes. -/
  size : Nat

/-- The parts of a buffer, from some number of handled bytes on. -/
def chunks (blockSize : Nat) (buffer : Nat → UInt8) : Nat → Nat → Nat → Nat → List Chunk
  | 0, _, _, _ => []
  | fuel + 1, block, handled, size =>
    if size = 0 then []
    else
      ⟨block, fun j => buffer (handled + j), min size blockSize⟩ ::
        chunks blockSize buffer fuel ((block + 1) % 2 ^ 32) (handled + min size blockSize)
          (size - min size blockSize)

/-- The parts of the buffers of a request. -/
def Request.chunks (req : Request) (blockSize : Nat) : List Chunk :=
  req.bufs.flatMap fun sg =>
    Sparse.chunks blockSize sg.buffer sg.length sg.block 0 sg.length

/-- The abstract disk. -/
structure Blocks where
  /-- The size of the blocks. -/
  size : Nat
  /-- The number of buffers. -/
  buffers : Nat
  /-- The fill pattern. -/
  fill : UInt8
  /-- The bytes of the blocks. -/
  contents : Nat → Nat → UInt8
  /-- The blocks with a buffer. -/
  buffered : Finset Nat

namespace Blocks

/-- A disk that was never written. -/
def blank (size buffers : Nat) (fill : UInt8) : Blocks :=
  ⟨size, buffers, fill, fun _ _ => fill, ∅⟩

/-- Write a part of a block. This fails only if the part holds something other than the fill
pattern, the block has no buffer and all buffers are in use. -/
def write (disk : Blocks) (c : Chunk) : Option Blocks :=
  if needsWriting disk.fill c.bytes c.size = true ∧ c.block ∉ disk.buffered ∧
      disk.buffered.card = disk.buffers then none
  else some { disk with
    contents := fun b j => if b = c.block ∧ j < c.size then c.bytes j else disk.contents b j
    buffered := if needsWriting disk.fill c.bytes c.size then insert c.block disk.buffered
      else disk.buffered }

/-- Write the parts up to the first failure. -/
def writeAll : Blocks → List Chunk → Blocks × Bool
  | disk, [] => (disk, true)
  | disk, c :: cs =>
    match disk.write c with
    | none => (disk, false)
    | some disk => disk.writeAll cs

/-- The byte that a read of a buffer gets at an offset. -/
def readByte (disk : Blocks) (sg : SgBuffer) (p : Nat) : UInt8 :=
  disk.contents ((sg.block + p / disk.size) % 2 ^ 32) (p % disk.size)

end Blocks

/-- What a request reports: its status, and the bytes of the buffers of a read. -/
structure Outcome where
  /-- The status. -/
  status : Status
  /-- The bytes. -/
  data : List (List UInt8)
  deriving DecidableEq, Repr

/-- A disk and what it reported so far. -/
structure Session (δ : Type) where
  /-- The disk. -/
  disk : δ
  /-- The outcomes of the requests. -/
  outcomes : List Outcome

/-- A request to the sparse disk. -/
def step (s : Session SparseDisk) (req : Request) : Option (Session SparseDisk) :=
  (readWrite s.disk req).map fun (disk, status, bufs) =>
    ⟨disk, s.outcomes ++
      [⟨status, if req.read then bufs.map fun sg => segment sg.buffer 0 sg.length else []⟩]⟩

/-- A request to the abstract disk. -/
def abstractStep (s : Session Blocks) (req : Request) : Option (Session Blocks) :=
  if req.read then
    some ⟨s.disk, s.outcomes ++
      [⟨.successful, req.bufs.map fun sg => (List.range sg.length).map (s.disk.readByte sg)⟩]⟩
  else
    let (disk, ok) := s.disk.writeAll (req.chunks s.disk.size)
    some ⟨disk, s.outcomes ++ [⟨if ok then .successful else .ioError, []⟩]⟩

/-- Each block of these parts that needs a new buffer is behind all blocks with a buffer, unless
there is no buffer left. -/
def Rising (buffers : Nat) (fill : UInt8) : Finset Nat → List Chunk → Prop
  | _, [] => True
  | buffered, c :: cs =>
    if needsWriting fill c.bytes c.size = true ∧ c.block ∉ buffered then
      buffered.card = buffers ∨
        ((∀ b ∈ buffered, b < c.block) ∧ Rising buffers fill (insert c.block buffered) cs)
    else Rising buffers fill buffered cs

/-- The condition can be checked. -/
def Rising.decide (buffers : Nat) (fill : UInt8) :
    (buffered : Finset Nat) → (cs : List Chunk) → Decidable (Rising buffers fill buffered cs)
  | _, [] => .isTrue trivial
  | buffered, c :: cs =>
    have := Rising.decide buffers fill (insert c.block buffered) cs
    have := Rising.decide buffers fill buffered cs
    inferInstanceAs (Decidable
      (if needsWriting fill c.bytes c.size = true ∧ c.block ∉ buffered then
        buffered.card = buffers ∨
          ((∀ b ∈ buffered, b < c.block) ∧ Rising buffers fill (insert c.block buffered) cs)
      else Rising buffers fill buffered cs))

instance (buffers : Nat) (fill : UInt8) (buffered : Finset Nat) (cs : List Chunk) :
    Decidable (Rising buffers fill buffered cs) :=
  Rising.decide buffers fill buffered cs

/-- The blocks with a buffer. -/
def bufferedSet (sd : SparseDisk) : Finset Nat :=
  ((sd.keyTable.take sd.usedCount).map Key.block).toFinset

/-- The blocks that a write gives a buffer come in ascending order behind those with one. -/
def Ordered (s : Session SparseDisk) (req : Request) : Prop :=
  req.read = true ∨ Rising s.disk.blocksWithBuffer s.disk.fillPattern (bufferedSet s.disk)
    (req.chunks s.disk.mediaBlockSize)

instance (s : Session SparseDisk) (req : Request) : Decidable (Ordered s req) :=
  inferInstanceAs (Decidable (_ ∨ _))

end Rtems.Sparse
