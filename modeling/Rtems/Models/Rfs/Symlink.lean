import Mathlib.Logic.Function.Basic

/-!
# Symbolic links of the RTEMS file system

A short text is kept in the inode, a longer one in a block. A buffer that is requested without
reading has any contents, and one that is released without the dirty mark is not written. The
buffer of the text is requested without reading by both operations, and is never marked.
-/

namespace Rtems.Rfs.Symlink

/-- `RTEMS_RFS_INODE_DATA_NAME_SIZE`. -/
def dataNameSize : Nat := 5 * 4

/-- The data of an inode, which holds a name or the numbers of blocks. -/
inductive Data
  | name (bytes : List UInt8)
  | block (number : Nat)

/-- What a symbolic link uses of its inode. The block count is zero exactly for a name. -/
structure Inode where
  blockOffset : UInt16
  data : Data

/-- The contents of the blocks. -/
abbrev Disk := Nat → List UInt8

/-- A buffer handle with a buffer. -/
structure Buffer where
  data : List UInt8
  dirty : Bool

/-- `rtems_rfs_buffer_handle_request`, with what the buffer holds if it is not read. -/
def handleRequest (disk : Disk) (block : Nat) (read : Bool) (junk : List UInt8) : Buffer :=
  ⟨if read then disk block else junk, false⟩

/-- `rtems_rfs_buffer_handle_close`. -/
def handleClose (disk : Disk) (block : Nat) (buffer : Buffer) : Disk :=
  if buffer.dirty then Function.update disk block buffer.data else disk

/-- `rtems_rfs_symlink` from the new inode on, with the block by which the block map grows;
nothing for a text that is too long. -/
def symlink (blockSize block : Nat) (junk : List UInt8) (disk : Disk) (link : List UInt8) :
    Option (Inode × Disk) :=
  let length := link.length
  if length ≥ blockSize then none
  else if length < dataNameSize then
    some (⟨.ofNat length, .name (link ++ List.replicate (dataNameSize - length) 0)⟩, disk)
  else
    let buffer := handleRequest disk block false junk
    let buffer := { buffer with data := link ++ List.replicate (blockSize - length) 0xff }
    some (⟨.ofNat length, .block block⟩, handleClose disk block buffer)

/-- `rtems_rfs_symlink_read`: the bytes in `path` and the length. -/
def symlinkRead (junk : List UInt8) (disk : Disk) (inode : Inode) (size : Nat) :
    List UInt8 × Nat :=
  let length := min size inode.blockOffset.toNat
  match inode.data with
  | .name bytes => (bytes.take length, length)
  | .block number => ((handleRequest disk number false junk).data.take length, length)

/-- A link with the text is made, and a read with a large enough buffer gives the text and its
length, whatever was written to the blocks and whatever an unread buffer holds. -/
def RoundTrips (blockSize : Nat) (link : List UInt8) : Prop :=
  ∀ block (junk : List UInt8) disk, junk.length = blockSize →
    ∃ inode disk', symlink blockSize block junk disk link = some (inode, disk') ∧
      ∀ (junk' : List UInt8) disk'' size, junk'.length = blockSize → link.length ≤ size →
        symlinkRead junk' disk'' inode size = (link, link.length)

section

variable {blockSize : Nat} {link : List UInt8} (hsize : link.length < blockSize)
include hsize

/-- A text that fits into the inode is read back. -/
theorem RoundTrips.of_short (hshort : link.length < dataNameSize) :
    RoundTrips blockSize link := by
  intro block junk disk _
  refine ⟨_, _, (if_neg (Nat.not_le.mpr hsize)).trans (if_pos hshort), ?_⟩
  intro junk' disk'' size _ hle
  have hlength : (UInt16.ofNat link.length).toNat = link.length :=
    UInt16.toNat_ofNat_of_lt' (Nat.lt_trans hshort (by decide))
  simp only [symlinkRead, hlength, Nat.min_eq_right hle, List.take_left']

/-- The read of a longer text gives the bytes of a buffer that was not read. -/
theorem symlinkRead_of_long (hlong : dataNameSize ≤ link.length) (block : Nat)
    (junk : List UInt8) (disk : Disk) :
    ∃ inode disk', symlink blockSize block junk disk link = some (inode, disk') ∧
      ∀ junk' disk'' size, ∃ n, (symlinkRead junk' disk'' inode size).1 = junk'.take n :=
  ⟨_, _, (if_neg (Nat.not_le.mpr hsize)).trans (if_neg (Nat.not_lt.mpr hlong)),
    fun _ _ _ => ⟨_, rfl⟩⟩

/-- A text makes the round trip if and only if it fits into the inode. -/
theorem symlink_roundTrips_iff : RoundTrips blockSize link ↔ link.length < dataNameSize := by
  refine ⟨fun hall => ?_, RoundTrips.of_short hsize⟩
  by_contra hshort
  have hlong := Nat.le_of_not_lt hshort
  obtain ⟨first, rest, rfl⟩ := List.exists_cons_of_length_pos
    (Nat.lt_of_lt_of_le (show 0 < dataNameSize by decide) hlong)
  -- The buffer of the read holds another byte than the first one of the text.
  have : Nontrivial UInt8 := ⟨0, 1, by decide⟩
  obtain ⟨other, hother⟩ := exists_ne first
  obtain ⟨inode, disk', hmade, hread⟩ := hall 0 (List.replicate blockSize 0) (fun _ => [])
    List.length_replicate
  obtain ⟨inode', disk'', hmade', hlost⟩ := symlinkRead_of_long hsize hlong 0
    (List.replicate blockSize 0) (fun _ => [])
  obtain rfl : inode = inode' :=
    congrArg Prod.fst (Option.some.inj (hmade.symm.trans hmade'))
  obtain ⟨n, hn⟩ := hlost (List.replicate blockSize other) disk' (first :: rest).length
  rw [hread _ _ _ List.length_replicate (Nat.le_refl _), List.take_replicate] at hn
  have hmem : first ∈ List.replicate (min n blockSize) other := hn ▸ List.mem_cons_self
  exact hother (List.eq_of_mem_replicate hmem).symm

end

/-- The longest text that fits, in blocks of 512 bytes. -/
theorem symlink_roundTrips_nineteen : RoundTrips 512 (List.replicate 19 97) :=
  (symlink_roundTrips_iff (by decide)).mpr (by decide)

/-- A text of 20 bytes is read back as 20 zeros. -/
theorem symlinkRead_loses_text :
    ∃ inode disk, symlink 512 7 [] (fun _ => []) (List.replicate 20 97) = some (inode, disk) ∧
      symlinkRead (List.replicate 512 0) disk inode 100 = (List.replicate 20 0, 20) :=
  ⟨_, _, rfl, rfl⟩

end Rtems.Rfs.Symlink
