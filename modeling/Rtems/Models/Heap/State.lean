import Mathlib.Data.Nat.Basic

/-!
# Heaps

The heap lives in a memory of words. A block is known by its address; its four words are
`prev_size`, `size_and_flag`, `next` and `prev`, and the last two belong to the caller while the
block is used. Addresses and sizes are computed modulo the number of addresses. The protection
against buffer overflows is not configured.
-/

namespace Rtems.Heap

/-- What the processor port fixes. -/
structure Cpu where
  /-- `sizeof( uintptr_t )`. -/
  wordSize : Nat
  /-- The number of values of `uintptr_t`. -/
  limit : Nat
  /-- `CPU_ALIGNMENT`. -/
  alignment : Nat

namespace Cpu

variable (cpu : Cpu)

/-- `HEAP_BLOCK_HEADER_SIZE`. -/
def headerSize : Nat := 2 * cpu.wordSize

/-- The sum of two numbers. -/
def add (a b : Nat) : Nat := (a + b) % cpu.limit

end Cpu

/-- The number with the flag `HEAP_PREV_BLOCK_USED`, the lowest bit, cleared. -/
def clearFlag (n : Nat) : Nat := n - n % 2

/-- `Heap_Control`, without the area and the statistics, and the memory. -/
structure Control where
  /-- The processor port. -/
  cpu : Cpu
  /-- The words of the memory. -/
  mem : Nat → Nat
  /-- The address of `free_list`, which is head and tail of the list of free blocks. -/
  freeList : Nat
  /-- `page_size`. -/
  pageSize : Nat
  /-- `min_block_size`. -/
  minBlockSize : Nat
  /-- `first_block`. -/
  firstBlock : Nat
  /-- `last_block`. -/
  lastBlock : Nat

namespace Control

variable (heap : Control)

/-- `block->prev_size`. -/
def prevSize (block : Nat) : Nat := heap.mem block

/-- `block->size_and_flag`. -/
def sizeAndFlag (block : Nat) : Nat := heap.mem (block + heap.cpu.wordSize)

/-- `block->next`. -/
def next (block : Nat) : Nat := heap.mem (block + 2 * heap.cpu.wordSize)

/-- `block->prev`. -/
def prev (block : Nat) : Nat := heap.mem (block + 3 * heap.cpu.wordSize)

/-- `_Heap_Block_at`. -/
def blockAt (block offset : Nat) : Nat := heap.cpu.add block offset

/-- `_Heap_Alloc_area_of_block`. -/
def allocAreaOfBlock (block : Nat) : Nat := heap.cpu.add block heap.cpu.headerSize

/-- `_Heap_Block_size`. -/
def blockSize (block : Nat) : Nat := clearFlag (heap.sizeAndFlag block)

/-- `_Heap_Is_prev_used`. -/
def isPrevUsed (block : Nat) : Bool := heap.sizeAndFlag block % 2 = 1

/-- `_Heap_Is_used`. -/
def isUsed (block : Nat) : Bool :=
  heap.isPrevUsed (heap.blockAt block (heap.blockSize block))

/-- `_Heap_Is_block_in_heap`. -/
def isBlockInHeap (block : Nat) : Bool :=
  heap.firstBlock ≤ block ∧ block ≤ heap.lastBlock

end Control

end Rtems.Heap
