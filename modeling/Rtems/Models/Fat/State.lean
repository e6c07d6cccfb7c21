import Rtems.Models.Fat.Table

/-!
# Files of a FAT volume

A file is a chain of clusters in the table. Its descriptor holds the size, the first cluster and
a cached position: the cluster of some index in the file, and the last cluster. A read goes
cluster by cluster; an extension adds as many clusters as it needs or as there are free. The fixed
root directory of a FAT12 or FAT16 volume is not a chain. Sizes and offsets are 32 bits wide.
-/

namespace Rtems.Fat

/-- `FAT_GENFAT_EOC`, the mark for the end of a chain. -/
def genfatEoc : Nat := 0xffffffff

/-- `FAT_GENFAT_FREE`, the mark for a free cluster. -/
def genfatFree : Nat := 0

/-- `FAT_UNDEFINED_VALUE`. -/
def undefinedValue : Nat := 0xffffffff

/-- The volume in use: the disk, and where to look for free clusters. -/
structure Fs where
  /-- The disk. -/
  disk : Disk
  /-- `vol.next_cl`. -/
  nextCl : Nat

/-- A file descriptor. -/
structure Fd where
  /-- `FAT_FD_OF_ROOT_DIR`. -/
  isRootDir : Bool
  /-- The type is `FAT_DIRECTORY`. -/
  isDirectory : Bool
  /-- `fat_file_size`. -/
  size : Nat
  /-- `cln`. -/
  cln : Nat
  /-- `map.file_cln`. -/
  fileCln : Nat
  /-- `map.disk_cln`. -/
  diskCln : Nat
  /-- `map.last_cln`. -/
  lastCln : Nat
  deriving DecidableEq, Repr

/-- The error code of an extension, except for I/O errors. -/
inductive Errno
  | enospc
  deriving DecidableEq, Repr

/-- The search for free clusters in progress. -/
structure Scan where
  /-- The disk. -/
  disk : Disk
  /-- `cl4find`. -/
  pos : Nat
  /-- `chain`, the first cluster found. -/
  chain : Nat
  /-- `save_cln`, the last cluster found. -/
  last : Nat
  /-- `cls_added`. -/
  added : Nat

variable (vol : Vol)

/-- Take a free cluster in `fat_scan_fat_for_free_clusters`. -/
def takeCluster (zeroFill : Bool) (st : Scan) : Option Scan :=
  (setFat vol st.disk st.pos genfatEoc).bind fun d =>
    (if st.added = 0 then some d else setFat vol d st.last st.pos).bind fun d =>
      (if zeroFill then (clusterSet vol d st.pos 0 vol.bpc 0).map (·.1) else some d).map fun d =>
        { st with
          disk := d
          chain := if st.added = 0 then st.pos else st.chain
          last := st.pos
          added := st.added + 1 }

/-- The loop of `fat_scan_fat_for_free_clusters`, which looks at every cluster once. -/
def scanLoop (zeroFill : Bool) (count : Nat) : Nat → Scan → Option Scan
  | 0, st => some st
  | left + 1, st =>
    if st.added = count then some st
    else
      (getFat vol st.disk st.pos).bind fun next =>
        (if next = genfatFree then takeCluster vol zeroFill st else some st).bind fun st =>
          scanLoop zeroFill count left
            { st with pos := if st.pos + 1 ≥ vol.dataCls + 2 then 2 else st.pos + 1 }

/-- `fat_scan_fat_for_free_clusters`. -/
def scanFat (fs : Fs) (count : Nat) (zeroFill : Bool) : Option (Fs × Scan) :=
  let pos := if (fs.nextCl + (word - 2)) % word < vol.dataCls then fs.nextCl else 2
  (scanLoop vol zeroFill count vol.dataCls ⟨fs.disk, pos, 0, undefinedValue, 0⟩).map fun st =>
    (⟨st.disk, st.last⟩, st)

/-- The test for a link to a further cluster in a chain. -/
def isLink (cln : Nat) : Bool :=
  cln % (vol.type.mask + 1) < vol.type.eocVal

/-- The loop of `fat_free_fat_clusters_chain`, with a bound on the length of the chain. -/
def freeLoop : Nat → Disk → Nat → Option Disk
  | fuel, d, cln =>
    if isLink vol cln then
      match fuel with
      | 0 => none
      | fuel + 1 =>
        (getFat vol d cln).bind fun next =>
          (setFat vol d cln genfatFree).bind fun d => freeLoop fuel d next
    else some d

/-- `fat_free_fat_clusters_chain`. -/
def freeChain (fs : Fs) (chain : Nat) : Option Fs :=
  (freeLoop vol (vol.dataCls + 1) fs.disk chain).map fun d => ⟨d, chain⟩

/-- `fat_init_clusters_chain`, with a bound on the length of the chain. -/
def initChain : Nat → Disk → Nat → Option Disk
  | fuel, d, cln =>
    if isLink vol cln then
      match fuel with
      | 0 => none
      | fuel + 1 =>
        (clusterSet vol d cln 0 vol.bpc 0).bind fun (d, _) =>
          (getFat vol d cln).bind fun next => initChain fuel d next
    else some d

/-- Follow the links of a chain. -/
def walk (d : Disk) : Nat → Nat → Option Nat
  | 0, cln => some cln
  | n + 1, cln => (getFat vol d cln).bind fun next => walk d n next

/-- `fat_file_lseek`: the cluster of an index in the file. -/
def fileLseek (d : Disk) (fd : Fd) (fileCln : Nat) : Option (Fd × Nat) :=
  if fileCln = fd.fileCln then some (fd, fd.diskCln)
  else
    (if fileCln > fd.fileCln then walk vol d (fileCln - fd.fileCln) fd.diskCln
      else walk vol d fileCln fd.cln).map fun cln =>
      ({ fd with
          fileCln
          diskCln := cln }, cln)

/-- The file is the fixed root directory of a FAT12 or FAT16 volume. -/
def isFixedRoot (fd : Fd) : Bool :=
  fd.isRootDir ∧ vol.type ≠ .fat32

/-- The loop of `fat_file_read`, with a bound on the number of passes: the bytes and the last
cluster. -/
def readLoop (d : Disk) : Nat → Nat → Nat → Nat → Nat → Option (List UInt8 × Nat)
  | _, _, save, _, 0 => some ([], save)
  | 0, _, _, _, _ + 1 => none
  | fuel + 1, cur, _, ofs, count + 1 =>
    let c := min (count + 1) (vol.bpc - ofs)
    let sec := (vol.clusterNumToSectorNum cur + ofs / vol.bps) % word
    (blockRead vol d c sec (ofs % vol.bps) c).bind fun bytes =>
      (getFat vol d cur).bind fun next =>
        (readLoop d fuel next cur 0 (count + 1 - c)).map fun (rest, save) => (bytes ++ rest, save)

/-- The index in the file of the cluster of the last byte of a transfer. -/
def cachedIndex (first ofs done : Nat) : Nat :=
  (first + (ofs + done + (word - 1)) % word / vol.bpc) % word

/-- `fat_file_read`. -/
def fileRead (d : Disk) (fd : Fd) (start count : Nat) : Option (Fd × List UInt8) :=
  if count = 0 then some (fd, [])
  else if start ≥ fd.size then some (fd, [])
  else
    let count := if count > fd.size ∨ start > fd.size - count then fd.size - start else count
    if isFixedRoot vol fd then
      let sec := (vol.clusterNumToSectorNum fd.cln + start / vol.bps) % word
      (blockRead vol d count sec (start % vol.bps) count).map fun bytes => (fd, bytes)
    else
      let clStart := start / vol.bpc
      let ofs := start % vol.bpc
      (fileLseek vol d fd clStart).bind fun (fd, cur) =>
        (readLoop vol d count cur 0 ofs count).map fun (bytes, save) =>
          ({ fd with
              fileCln := cachedIndex vol clStart ofs bytes.length
              diskCln := save }, bytes)

/-- Add a new chain to the end of a file in `fat_file_extend`. -/
def appendChain (fs : Fs) (fd : Fd) (st : Scan) : Option (Fs × Fd) :=
  (if fd.size = 0 then
    some (fs, { fd with
      diskCln := st.chain
      fileCln := 0
      cln := st.chain })
  else
    (if fd.lastCln ≠ undefinedValue then some (fd, fd.lastCln)
      else fileLseek vol fs.disk fd ((fd.size - 1) / vol.bpc)).bind fun (fd, last) =>
      (setFat vol fs.disk last st.chain).map fun d => ({ fs with disk := d }, fd)).bind
    fun (fs, fd) =>
      let fd := { fd with lastCln := st.last }
      if fd.isDirectory then
        (initChain vol (vol.dataCls + 1) fs.disk st.chain).map fun d => ({ fs with disk := d }, fd)
      else some (fs, fd)

/-- Clear the rest of the last cluster in `fat_file_extend`. -/
def fillRoom (fs : Fs) (fd : Fd) (zeroFill : Bool) (bytesRemain : Nat) : Option (Fs × Fd) :=
  if zeroFill ∧ bytesRemain > 0 then
    (fileLseek vol fs.disk fd (fd.size / vol.bpc)).bind fun (fd, cur) =>
      (clusterSet vol fs.disk cur (fd.size % vol.bpc) bytesRemain 0).map fun (d, _) =>
        ({ fs with disk := d }, fd)
  else some (fs, fd)

/-- `fat_file_extend`: the length that the file has room for. -/
def fileExtend (fs : Fs) (fd : Fd) (zeroFill : Bool) (newLength : Nat) :
    Option (Fs × Fd × Except Errno Nat) :=
  if newLength ≤ fd.size then some (fs, fd, .ok newLength)
  else if isFixedRoot vol fd then some (fs, fd, .error .enospc)
  else
    let bytesRemain := (vol.bpc - fd.size % vol.bpc) % vol.bpc
    let bytes2add := newLength - fd.size
    let bytes2add := if bytes2add > bytesRemain then bytes2add - bytesRemain else 0
    (fillRoom vol fs fd zeroFill bytesRemain).bind fun (fs, fd) =>
      if bytes2add = 0 then some (fs, fd, .ok newLength)
      else
        let cls2add := (bytes2add - 1) / vol.bpc + 1
        (scanFat vol fs cls2add zeroFill).bind fun (fs, st) =>
          if st.added = 0 ∧ bytesRemain = 0 then some (fs, fd, .error .enospc)
          else
            let missing := (cls2add - st.added) * vol.bpc % word
            let newLength :=
              if cls2add ≠ st.added then
                newLength - (if bytes2add < missing then bytes2add else missing)
              else newLength
            (if st.added > 0 then appendChain vol fs fd st else some (fs, fd)).map fun (fs, fd) =>
              (fs, { fd with size := newLength }, .ok newLength)

end Rtems.Fat
