import Rtems.Models.Rfs.Dir.State

/-!
# Records in blocks

A valid entry is one that the checks of all operations accept. A page is a sequence of valid
entries that fits a block, and a block lays it out. A walk through the records of a block is a
walk through the entries of the page.
-/

namespace Rtems.Rfs.Dir

variable {fs : FileSystem}

/-- The inode and the name of an entry pass the checks for valid entries. -/
structure Accepted (fs : FileSystem) (name : List UInt8) (ino : UInt32) : Prop where
  /-- The name is not empty. -/
  pos : 0 < name.length
  /-- The record is shorter than the maximum length of a name. -/
  lt_maxName : entrySize + name.length < fs.maxName
  /-- The length of the record does not stand for the end of the records. -/
  lt_empty : entrySize + name.length < entryEmpty
  /-- The inode is one of the file system. -/
  root_le : rootIno ≤ ino.toNat
  /-- The inode is one of the file system. -/
  le_inodes : ino.toNat ≤ fs.inodes

instance (fs : FileSystem) (name : List UInt8) (ino : UInt32) :
    Decidable (Accepted fs name ino) :=
  decidable_of_iff (0 < name.length ∧ entrySize + name.length < fs.maxName ∧
      entrySize + name.length < entryEmpty ∧ rootIno ≤ ino.toNat ∧ ino.toNat ≤ fs.inodes)
    ⟨fun h => ⟨h.1, h.2.1, h.2.2.1, h.2.2.2.1, h.2.2.2.2⟩,
      fun h => ⟨h.pos, h.lt_maxName, h.lt_empty, h.root_le, h.le_inodes⟩⟩

/-- A valid entry. -/
structure Entry (fs : FileSystem) where
  /-- The name. -/
  name : List UInt8
  /-- The inode. -/
  ino : UInt32
  /-- They pass the checks. -/
  accepted : Accepted fs name ino

namespace Entry

/-- The bytes of an entry. -/
def bytes (e : Entry fs) : List UInt8 :=
  entryBytes fs e.name e.ino.toNat

/-- The length of an entry. -/
def size (e : Entry fs) : Nat :=
  entrySize + e.name.length

@[simp] theorem length_bytes (e : Entry fs) : e.bytes.length = e.size := by
  simp only [bytes, entryBytes, size, entrySize, List.length_append, Bytes.length_ofNat]

theorem size_pos (e : Entry fs) : entrySize < e.size :=
  Nat.lt_add_of_pos_right e.accepted.pos

section

variable (e : Entry fs) (rest : List UInt8)
include e rest

theorem ino_bytes :
    entryIno (e.bytes ++ rest) = e.ino.toNat := by
  have hlt : e.ino.toNat < 256 ^ 4 := e.ino.toNat_lt
  simp only [entryIno, bytes, entryBytes, List.append_assoc]
  rw [List.take_left' (Bytes.length_ofNat _ _), Bytes.toNat_ofNat_of_lt hlt]

theorem hash_bytes :
    entryHash (e.bytes ++ rest) = (fs.hash e.name).toNat := by
  have hlt : (fs.hash e.name).toNat < 256 ^ 4 := (fs.hash e.name).toNat_lt
  simp only [entryHash, bytes, entryBytes, List.append_assoc]
  rw [List.drop_left' (Bytes.length_ofNat _ _), List.take_left' (Bytes.length_ofNat _ _),
    Bytes.toNat_ofNat_of_lt hlt]

theorem length_field_bytes :
    entryLength (e.bytes ++ rest) = e.size := by
  have hlt : entrySize + e.name.length < 256 ^ 2 :=
    Nat.lt_of_lt_of_le e.accepted.lt_empty (by decide)
  have hfront : (Bytes.ofNat 4 e.ino.toNat ++ Bytes.ofNat 4 (fs.hash e.name).toNat).length = 8 := by
    simp
  simp only [entryLength, bytes, entryBytes, List.append_assoc]
  rw [← List.append_assoc (Bytes.ofNat 4 _), List.drop_left' hfront,
    List.take_left' (Bytes.length_ofNat _ _), Bytes.toNat_ofNat_of_lt hlt]
  rfl

theorem name_bytes :
    (e.bytes ++ rest).drop entrySize = e.name ++ rest := by
  have hfront : (Bytes.ofNat 4 e.ino.toNat ++ Bytes.ofNat 4 (fs.hash e.name).toNat ++
      Bytes.ofNat 2 (entrySize + e.name.length)).length = entrySize := by
    simp [entrySize]
  rw [bytes, entryBytes, List.append_assoc _ e.name rest, List.drop_left' hfront]

theorem drop_bytes : (e.bytes ++ rest).drop e.size = rest :=
  List.drop_left' e.length_bytes

end

theorem size_ne_empty (e : Entry fs) : e.size ≠ entryEmpty :=
  Nat.ne_of_lt e.accepted.lt_empty

theorem not_bad (e : Entry fs) : isEntryBad fs e.size e.ino.toNat = false := by
  have hpos := e.size_pos
  have hmax : e.size < fs.maxName := e.accepted.lt_maxName
  have hroot := e.accepted.root_le
  have hinodes := e.accepted.le_inodes
  rw [isEntryBad, decide_eq_false_iff_not]
  omega

end Entry

/-- The bytes of entries. -/
def encode (es : List (Entry fs)) : List UInt8 :=
  es.flatMap Entry.bytes

/-- The length of entries. -/
def total (es : List (Entry fs)) : Nat :=
  (es.map Entry.size).sum

@[simp] theorem encode_nil : encode ([] : List (Entry fs)) = [] := rfl

@[simp] theorem encode_cons (e : Entry fs) (es : List (Entry fs)) :
    encode (e :: es) = e.bytes ++ encode es := rfl

@[simp] theorem encode_append (es es' : List (Entry fs)) :
    encode (es ++ es') = encode es ++ encode es' :=
  List.flatMap_append

@[simp] theorem total_nil : total ([] : List (Entry fs)) = 0 := rfl

@[simp] theorem total_cons (e : Entry fs) (es : List (Entry fs)) :
    total (e :: es) = e.size + total es := by
  simp [total]

@[simp] theorem total_append (es es' : List (Entry fs)) :
    total (es ++ es') = total es + total es' := by
  simp [total]

@[simp] theorem length_encode (es : List (Entry fs)) : (encode es).length = total es := by
  induction es with
  | nil => rfl
  | cons e es ih => rw [encode_cons, List.length_append, ih, e.length_bytes, total_cons]

/-- The bytes that fill a block up from an offset on. -/
def filler (fs : FileSystem) (offset : Nat) : List UInt8 :=
  List.replicate (fs.blockSize - offset) 0xff

theorem entryLength_filler {offset : Nat} (h : offset < fs.blockSize - entrySize) :
    entryLength (filler fs offset) = entryEmpty := by
  have hroom : min 2 (fs.blockSize - offset - 8) = 2 := by
    simp only [entrySize] at h
    omega
  rw [entryLength, filler, List.drop_replicate, List.take_replicate, hroom]
  rfl

/-- A page: entries that fit a block and leave a byte. -/
structure Page (fs : FileSystem) where
  /-- The entries. -/
  entries : List (Entry fs)
  /-- They fit. -/
  total_lt : total entries < fs.blockSize

/-- The block of a page. -/
def Page.block (p : Page fs) : Block :=
  encode p.entries ++ filler fs (total p.entries)

theorem drop_block {p : Page fs} {es es' : List (Entry fs)} (h : p.entries = es ++ es') :
    p.block.drop (total es) = encode es' ++ filler fs (total es + total es') := by
  rw [Page.block, h, encode_append, total_append, List.append_assoc,
    List.drop_left' (length_encode es)]

/-- The directory of pages. -/
def blocks (pages : List (Page fs)) : List Block :=
  pages.map Page.block

/-- A walk through entries, from an offset on. -/
def scanEntries {ρ : Type} (fs : FileSystem) (visit : List UInt8 → Nat → Nat → Option ρ) :
    List (Entry fs) → Nat → Stop ρ
  | [], offset => if offset < fs.blockSize - entrySize then .empty offset else .full
  | e :: es, offset =>
    match visit (e.bytes ++ (encode es ++ filler fs (offset + total (e :: es)))) offset e.size with
    | some result => .found result
    | none => scanEntries fs visit es (offset + e.size)

/-- The loop through the records of a block is a walk through its entries. -/
theorem scan_eq {ρ : Type} (visit : List UInt8 → Nat → Nat → Option ρ) {es : List (Entry fs)}
    {offset fuel : Nat} (hfit : offset + total es < fs.blockSize)
    (hfuel : fs.blockSize ≤ fuel + offset) :
    scan fs visit fuel (encode es ++ filler fs (offset + total es)) offset =
      some (scanEntries fs visit es offset) := by
  induction es generalizing offset fuel with
  | nil =>
    obtain ⟨fuel, rfl⟩ : ∃ k, fuel = k + 1 := ⟨fuel - 1, by omega⟩
    simp only [encode_nil, List.nil_append, scanEntries, scan]
    split
    next hroom => exact if_pos (entryLength_filler hroom)
    next => rfl
  | cons e es ih =>
    have hsize := e.size_pos
    have hshift : offset + total (e :: es) = offset + e.size + total es := by
      rw [total_cons, Nat.add_assoc]
    have hfit' : offset + e.size + total es < fs.blockSize := hshift ▸ hfit
    obtain ⟨fuel, rfl⟩ : ∃ k, fuel = k + 1 := ⟨fuel - 1, by omega⟩
    have hroom : offset < fs.blockSize - entrySize := by omega
    have hfuel' : fs.blockSize ≤ fuel + (offset + e.size) := by omega
    simp only [encode_cons, List.append_assoc, scan, if_pos hroom, scanEntries,
      e.length_field_bytes, e.ino_bytes, e.size_ne_empty, if_false, e.not_bad, Bool.false_eq_true]
    cases visit (e.bytes ++ (encode es ++ filler fs (offset + total (e :: es)))) offset e.size with
    | some result => rfl
    | none =>
      simp only [e.drop_bytes, hshift]
      exact ih hfit' hfuel'

theorem scan_block {ρ : Type} (visit : List UInt8 → Nat → Nat → Option ρ) (p : Page fs) :
    scan fs visit fs.blockSize p.block 0 = some (scanEntries fs visit p.entries 0) := by
  have h := scan_eq visit (show 0 + total p.entries < fs.blockSize by
    rw [Nat.zero_add]; exact p.total_lt) (Nat.le_refl (fs.blockSize + 0))
  rwa [Nat.zero_add] at h

end Rtems.Rfs.Dir
