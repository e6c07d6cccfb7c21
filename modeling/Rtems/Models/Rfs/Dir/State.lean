import Rtems.Core.Bytes
import Rtems.Core.Run

/-!
# Directories of the RTEMS file system

A directory is a sequence of blocks, as its block map gives them. A block holds records of
variable length from its start on, each with an inode number, the hash of the name, the
length of the record and the name, and is filled up with `0xff`. All operations walk through
the records of a block in the same way; they differ in what they do at a record and where the
records end. The bytes behind the buffer of a block, which the comparison of names may reach,
are an input of the look-up.
-/

namespace Rtems.Rfs.Dir

/-- `RTEMS_RFS_DIR_ENTRY_SIZE`: the bytes of a record before the name. -/
def entrySize : Nat := 10

/-- `RTEMS_RFS_DIR_ENTRY_EMPTY`: the length that marks the end of the records. -/
def entryEmpty : Nat := 0xffff

/-- `RTEMS_RFS_ROOT_INO`. -/
def rootIno : Nat := 1

/-- The error codes of the operations. -/
inductive Errno
  | enoent
  | eio
  | enospc
  deriving DecidableEq, Repr

/-- What the operations use of the file system. -/
structure FileSystem where
  /-- `block_size`. -/
  blockSize : Nat
  /-- `max_name_length`. -/
  maxName : Nat
  /-- `inodes`. -/
  inodes : Nat
  /-- `NAME_MAX`. -/
  nameMax : Nat
  /-- `rtems_rfs_dir_hash`. -/
  hash : List UInt8 → UInt32
  /-- A block has room for more than a record without a name. -/
  entrySize_lt : entrySize < blockSize

/-- The bytes of a block. -/
abbrev Block := List UInt8

/-- `rtems_rfs_dir_entry_ino`. -/
def entryIno (entry : List UInt8) : Nat :=
  Bytes.toNat (entry.take 4)

/-- `rtems_rfs_dir_entry_hash`. -/
def entryHash (entry : List UInt8) : Nat :=
  Bytes.toNat ((entry.drop 4).take 4)

/-- `rtems_rfs_dir_entry_length`. -/
def entryLength (entry : List UInt8) : Nat :=
  Bytes.toNat ((entry.drop 8).take 2)

/-- `rtems_rfs_dir_entry_valid`, which holds if the entry is not valid. -/
def isEntryBad (fs : FileSystem) (elength ino : Nat) : Bool :=
  elength ≤ entrySize ∨ elength ≥ fs.maxName ∨ ino < rootIno ∨ ino > fs.inodes

/-- Where a walk through the records of a block stops. -/
inductive Stop (ρ : Type)
  /-- At a record, with a result. -/
  | found (result : ρ)
  /-- At the end of the records, at this offset. -/
  | empty (offset : Nat)
  /-- At the end of the block. -/
  | full
  /-- At a bad record. -/
  | bad
  deriving DecidableEq, Repr

/-- The loop through the records of a block from an entry on, with a bound on the number of
passes. What is done at a record is given by its bytes and the ones behind it, its offset and
its length. -/
def scan {ρ : Type} (fs : FileSystem) (visit : List UInt8 → Nat → Nat → Option ρ) :
    Nat → List UInt8 → Nat → Option (Stop ρ)
  | 0, _, _ => none
  | fuel + 1, entry, offset =>
    if offset < fs.blockSize - entrySize then
      let elength := entryLength entry
      if elength = entryEmpty then some (.empty offset)
      else if isEntryBad fs elength (entryIno entry) then some .bad
      else
        match visit entry offset elength with
        | some result => some (.found result)
        | none => scan fs visit fuel (entry.drop elength) (offset + elength)
    else some .full

/-- The bytes of a buffer from an entry on, with those behind the buffer. -/
def byteAt (entry : List UInt8) (behind : Nat → UInt8) (j : Nat) : UInt8 :=
  (entry[j]?).getD (behind (j - entry.length))

/-- `memcmp` of the name of an entry with a name, over the length of the latter. -/
def nameMatches (entry : List UInt8) (behind : Nat → UInt8) (name : List UInt8) : Bool :=
  (List.range name.length).map (fun j => byteAt entry behind (entrySize + j)) = name

/-- What `rtems_rfs_dir_lookup_ino` does at a record. -/
def lookupVisit (fs : FileSystem) (behind : Nat → UInt8) (name entry : List UInt8)
    (offset _elength : Nat) : Option (Nat × Nat) :=
  if entryHash entry = (fs.hash name).toNat then
    if nameMatches entry behind name then some (entryIno entry, offset) else none
  else none

/-- The loop of `rtems_rfs_dir_lookup_ino` through the blocks. -/
def lookupLoop (fs : FileSystem) (behind : Nat → Nat → UInt8) (name : List UInt8) :
    List Block → Nat → Option (Except Errno (Nat × UInt32))
  | [], _ => some (.error .enoent)
  | block :: rest, bno =>
    (scan fs (lookupVisit fs (behind bno) name) fs.blockSize block 0).bind fun
      -- The position has 64 bits, the offset that is returned 32.
      | .found (ino, boff) => some (.ok (ino, .ofNat (bno * fs.blockSize + boff)))
      | .bad => some (.error .eio)
      | _ => lookupLoop fs behind name rest (bno + 1)

/-- `rtems_rfs_dir_lookup_ino`: the inode and the offset of the entry. -/
def lookupIno (fs : FileSystem) (behind : Nat → Nat → UInt8) (dir : List Block)
    (name : List UInt8) : Option (Except Errno (Nat × UInt32)) :=
  lookupLoop fs behind name dir 0

/-- The bytes of an entry as `rtems_rfs_dir_add_entry` sets them. -/
def entryBytes (fs : FileSystem) (name : List UInt8) (ino : Nat) : List UInt8 :=
  Bytes.ofNat 4 ino ++ Bytes.ofNat 4 (fs.hash name).toNat ++
    Bytes.ofNat 2 (entrySize + name.length) ++ name

/-- Overwrite the bytes of a block from an offset on. -/
def overwrite (block : Block) (offset : Nat) (bytes : List UInt8) : Block :=
  block.take offset ++ bytes ++ block.drop (offset + bytes.length)

/-- What `rtems_rfs_dir_add_entry` does in a block: the block with the new entry, or nothing
if the entry has no room. -/
def addToBlock (fs : FileSystem) (name : List UInt8) (ino : Nat) (block : Block) :
    Option (Except Errno (Option Block)) :=
  (scan fs (fun _ _ _ => (none : Option Empty)) fs.blockSize block 0).bind fun
    | .found r => r.elim
    | .bad => some (.error .eio)
    | .full => some (.ok none)
    | .empty offset =>
      if name.length + entrySize < fs.blockSize - offset then
        some (.ok (some (overwrite block offset (entryBytes fs name ino))))
      else some (.ok none)

/-- The part of the loop of `rtems_rfs_dir_add_entry` that appends blocks, as many as there is
space for. -/
def addGrow (fs : FileSystem) (name : List UInt8) (ino : Nat) :
    Nat → Option (Except Errno (List Block))
  | 0 => some (.error .enospc)
  | space + 1 =>
    let block : Block := List.replicate fs.blockSize 0xff
    (addToBlock fs name ino block).bind fun
      | .error e => some (.error e)
      | .ok (some block) => some (.ok [block])
      | .ok none => (addGrow fs name ino space).map fun result => result.map (block :: ·)

/-- `rtems_rfs_dir_add_entry`, with the number of blocks by which the directory can grow. -/
def addEntry (fs : FileSystem) (name : List UInt8) (ino space : Nat) :
    List Block → Option (Except Errno (List Block))
  | [] => addGrow fs name ino space
  | block :: rest =>
    (addToBlock fs name ino block).bind fun
      | .error e => some (.error e)
      | .ok (some block) => some (.ok (block :: rest))
      | .ok none => (addEntry fs name ino space rest).map fun result => result.map (block :: ·)

/-- What `rtems_rfs_dir_del_entry` does at a record: the place of the one to delete. -/
def delVisit (ino : Nat) (search : Bool) (entry : List UInt8) (offset elength : Nat) :
    Option (Except Errno (Nat × Nat)) :=
  if ino = entryIno entry then some (.ok (offset, elength))
  else if !search then some (.error .eio)
  else none

/-- Take the bytes of an entry out of a block and fill it up. -/
def compact (block : Block) (offset elength : Nat) : Block :=
  block.take offset ++ block.drop (offset + elength) ++ List.replicate elength 0xff

/-- The loop of `rtems_rfs_dir_del_entry` through the blocks from the one of the offset on. -/
def delLoop (fs : FileSystem) (ino offset : Nat) : List Block → Option (Except Errno (List Block))
  | [] => some (.error .enoent)
  | block :: rest =>
    let search : Bool := offset = 0
    let eoffset := if search then 0 else offset % fs.blockSize
    (scan fs (delVisit ino search) fs.blockSize (block.drop eoffset) eoffset).bind fun
      | .found (.ok (eoffset, elength)) =>
        let block := compact block eoffset elength
        -- An empty last block is given back.
        if entryLength (block.drop eoffset) = entryEmpty ∧ eoffset = 0 ∧ rest = [] then
          some (.ok [])
        else some (.ok (block :: rest))
      | .found (.error e) => some (.error e)
      | .bad => some (.error .eio)
      | _ => (delLoop fs ino offset rest).map fun result => result.map (block :: ·)

/-- `rtems_rfs_dir_del_entry`. -/
def delEntry (fs : FileSystem) (dir : List Block) (ino : Nat) (offset : UInt32) :
    Option (Except Errno (List Block)) :=
  let bno := offset.toNat / fs.blockSize
  (delLoop fs ino offset.toNat (dir.drop bno)).map fun result => result.map (dir.take bno ++ ·)

/-- What `rtems_rfs_dir_read` gives in a `dirent`. -/
structure Dirent where
  /-- `d_off`. -/
  off : Nat
  /-- `d_ino`. -/
  ino : Nat
  /-- `d_name`, of length `d_namlen`. -/
  name : List UInt8
  deriving DecidableEq, Repr

/-- The loop of `rtems_rfs_dir_read` through the blocks: the entry and the length to go on by. -/
def readLoop (fs : FileSystem) (offset : Nat) :
    List Block → Nat → Nat → Except Errno (Dirent × Nat)
  | [], _, _ => .error .enoent
  | block :: rest, boff, length =>
    let entry := block.drop boff
    let elength := entryLength entry
    if elength ≠ entryEmpty then
      if isEntryBad fs elength (entryIno entry) then .error .eio
      else
        let remaining : Int := fs.blockSize - (boff + elength)
        let skip := if remaining ≤ entrySize then remaining else 0
        let namlen := min (elength - entrySize) fs.nameMax
        .ok (⟨offset, entryIno entry, (entry.drop entrySize).take namlen⟩,
          (length + elength + skip).toNat)
    else readLoop fs offset rest 0 (length + (fs.blockSize - boff))

/-- `rtems_rfs_dir_read`. -/
def read (fs : FileSystem) (dir : List Block) (offset : Nat) : Except Errno (Dirent × Nat) :=
  let bs := fs.blockSize
  let offset := if bs - offset % bs ≤ entrySize then (offset / bs + 1) * bs else offset
  readLoop fs offset (dir.drop (offset / bs)) (offset % bs) 0

/-- Read entry after entry from an offset on up to the end, at most `fuel` times. -/
def readAll (fs : FileSystem) (dir : List Block) : Nat → Nat → Option (Except Errno (List Dirent))
  | 0, _ => none
  | fuel + 1, offset =>
    match read fs dir offset with
    | .ok (dirent, length) =>
      (readAll fs dir fuel (offset + length)).map fun result => result.map (dirent :: ·)
    | .error .enoent => some (.ok [])
    | .error e => some (.error e)

end Rtems.Rfs.Dir
