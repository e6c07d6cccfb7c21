import Rtems.Models.Rfs.Dir.State

/-!
# Empty directories

A directory may be removed if it holds nothing but itself and its parent. The error at a bad
record is overwritten by the step to the next block, so that a bad record counts as the end of
the records of its block.
-/

namespace Rtems.Rfs.Dir

variable {fs : FileSystem}

/-- The error codes of `rtems_rfs_dir_empty`. -/
inductive EmptyErrno
  | enxio
  | enotempty
  deriving DecidableEq, Repr

/-- The record is the entry `.` or the entry `..`. -/
def isDots (behind : Nat → UInt8) (entry : List UInt8) (elength : Nat) : Bool :=
  (elength = entrySize + 1 ∧ byteAt entry behind entrySize = 46) ∨
    (elength = entrySize + 2 ∧ byteAt entry behind entrySize = 46 ∧
      byteAt entry behind (entrySize + 1) = 46)

/-- What `rtems_rfs_dir_empty` does at a record. -/
def emptyVisit (behind : Nat → UInt8) (entry : List UInt8) (_offset elength : Nat) : Option Unit :=
  if isDots behind entry elength then none else some ()

/-- The loop of `rtems_rfs_dir_empty` through the blocks. -/
def emptyLoop (fs : FileSystem) (behind : Nat → Nat → UInt8) :
    List Block → Nat → Option (Except EmptyErrno Unit)
  | [], _ => some (.ok ())
  | block :: rest, bno =>
    (scan fs (emptyVisit (behind bno)) fs.blockSize block 0).bind fun
      | .found () => some (.error .enotempty)
      -- The return code `EIO` of a bad record is replaced by that of the next block.
      | _ => emptyLoop fs behind rest (bno + 1)

/-- `rtems_rfs_dir_empty`. -/
def dirEmpty (fs : FileSystem) (behind : Nat → Nat → UInt8) (dir : List Block) :
    Option (Except EmptyErrno Unit) :=
  if dir = [] then some (.error .enxio) else emptyLoop fs behind dir 0

/-- All records from an entry on, up to the first empty one, are valid and `.` or `..`. -/
inductive OnlyDots (fs : FileSystem) (behind : Nat → UInt8) : List UInt8 → Nat → Prop
  | full {entry : List UInt8} {offset : Nat} :
    fs.blockSize - entrySize ≤ offset → OnlyDots fs behind entry offset
  | empty {entry : List UInt8} {offset : Nat} :
    entryLength entry = entryEmpty → OnlyDots fs behind entry offset
  | dots {entry : List UInt8} {offset : Nat} :
    isEntryBad fs (entryLength entry) (entryIno entry) = false →
    isDots behind entry (entryLength entry) = true →
    OnlyDots fs behind (entry.drop (entryLength entry)) (offset + entryLength entry) →
    OnlyDots fs behind entry offset

/-- From an entry on, the records `.` and `..` lead to a record of some kind. -/
inductive Reaches (fs : FileSystem) (behind : Nat → UInt8) (kind : List UInt8 → Prop) :
    List UInt8 → Nat → Prop
  | here {entry : List UInt8} {offset : Nat} :
    offset < fs.blockSize - entrySize → entryLength entry ≠ entryEmpty → kind entry →
    Reaches fs behind kind entry offset
  | next {entry : List UInt8} {offset : Nat} :
    offset < fs.blockSize - entrySize → entryLength entry ≠ entryEmpty →
    isEntryBad fs (entryLength entry) (entryIno entry) = false →
    isDots behind entry (entryLength entry) = true →
    Reaches fs behind kind (entry.drop (entryLength entry)) (offset + entryLength entry) →
    Reaches fs behind kind entry offset

/-- The record is not valid. -/
def IsBad (fs : FileSystem) (entry : List UInt8) : Prop :=
  isEntryBad fs (entryLength entry) (entryIno entry) = true

instance (fs : FileSystem) (entry : List UInt8) : Decidable (IsBad fs entry) :=
  inferInstanceAs (Decidable (_ = true))

/-- The record is valid and neither `.` nor `..`. -/
def IsOther (fs : FileSystem) (behind : Nat → UInt8) (entry : List UInt8) : Prop :=
  isEntryBad fs (entryLength entry) (entryIno entry) = false ∧
    isDots behind entry (entryLength entry) = false

/-- What the walk through the records of a block tells about them. -/
structure Walked (fs : FileSystem) (behind : Nat → UInt8) (entry : List UInt8) (offset : Nat)
    (stop : Stop Unit) : Prop where
  /-- It stops at a record other than `.` and `..`. -/
  found : stop = .found () ↔ Reaches fs behind (IsOther fs behind) entry offset
  /-- It stops at a bad record. -/
  bad : stop = .bad ↔ Reaches fs behind (IsBad fs) entry offset
  /-- It stops elsewhere. -/
  dots : OnlyDots fs behind entry offset ↔ stop ≠ .found () ∧ stop ≠ .bad

section

variable {behind : Nat → UInt8} {entry : List UInt8} {offset : Nat}

theorem Reaches.of_end {kind : List UInt8 → Prop}
    (hend : fs.blockSize - entrySize ≤ offset ∨ entryLength entry = entryEmpty) :
    ¬ Reaches fs behind kind entry offset := by
  rintro (⟨hin, hne, -⟩ | ⟨hin, hne, -⟩)
  all_goals exact hend.elim (fun h => absurd hin (Nat.not_lt.mpr h)) hne

/-- Nothing is behind the records. -/
theorem Walked.of_end {stop : Stop Unit} (hfound : stop ≠ .found ()) (hbad : stop ≠ .bad)
    (hend : fs.blockSize - entrySize ≤ offset ∨ entryLength entry = entryEmpty) :
    Walked fs behind entry offset stop :=
  ⟨iff_of_false hfound (Reaches.of_end hend), iff_of_false hbad (Reaches.of_end hend),
    iff_of_true (hend.elim .full .empty) ⟨hfound, hbad⟩⟩

section

variable (hin : offset < fs.blockSize - entrySize) (hne : entryLength entry ≠ entryEmpty)
include hin hne

theorem onlyDots_iff : OnlyDots fs behind entry offset ↔
    isEntryBad fs (entryLength entry) (entryIno entry) = false ∧
      isDots behind entry (entryLength entry) = true ∧
      OnlyDots fs behind (entry.drop (entryLength entry)) (offset + entryLength entry) := by
  constructor
  · rintro (hfull | hend | ⟨hvalid, hdots, hrest⟩)
    · omega
    · exact absurd hend hne
    · exact ⟨hvalid, hdots, hrest⟩
  · exact fun h => .dots h.1 h.2.1 h.2.2

theorem reaches_iff {kind : List UInt8 → Prop} : Reaches fs behind kind entry offset ↔
    kind entry ∨ isEntryBad fs (entryLength entry) (entryIno entry) = false ∧
      isDots behind entry (entryLength entry) = true ∧
      Reaches fs behind kind (entry.drop (entryLength entry)) (offset + entryLength entry) := by
  constructor
  · rintro (⟨-, -, hkind⟩ | ⟨-, -, hvalid, hdots, hrest⟩)
    · exact .inl hkind
    · exact .inr ⟨hvalid, hdots, hrest⟩
  · rintro (hkind | ⟨hvalid, hdots, hrest⟩)
    · exact .here hin hne hkind
    · exact .next hin hne hvalid hdots hrest

end

/-- The walk through the records of a block returns, and tells what the records are. -/
theorem exists_scan_emptyVisit {fuel : Nat} (hpos : 0 < fuel)
    (hfuel : fs.blockSize ≤ fuel + offset) :
    ∃ stop, scan fs (emptyVisit behind) fuel entry offset = some stop ∧
      Walked fs behind entry offset stop := by
  induction fuel generalizing entry offset with
  | zero => omega
  | succ fuel ih =>
    rw [scan]
    by_cases hin : offset < fs.blockSize - entrySize
    swap
    · exact ⟨.full, if_neg hin, .of_end (by decide) (by decide) (.inl (Nat.le_of_not_lt hin))⟩
    rw [if_pos hin]
    by_cases hne : entryLength entry = entryEmpty
    · exact ⟨.empty offset, if_pos hne, .of_end (by simp) (by simp) (.inr hne)⟩
    simp only [if_neg hne]
    cases hbad : isEntryBad fs (entryLength entry) (entryIno entry) with
    | true =>
      refine ⟨.bad, rfl, ?_, ?_, ?_⟩
      · simp [reaches_iff hin hne, IsOther, hbad]
      · simp [reaches_iff hin hne, IsBad, hbad]
      · simp [onlyDots_iff hin hne, hbad]
    | false =>
      cases hdots : isDots behind entry (entryLength entry) with
      | false =>
        refine ⟨.found (), by simp [emptyVisit, hdots], ?_, ?_, ?_⟩
        · simp [reaches_iff hin hne, IsOther, hbad, hdots]
        · simp [reaches_iff hin hne, IsBad, hbad, hdots]
        · simp [onlyDots_iff hin hne, hdots]
      | true =>
        have hlength : entrySize < entryLength entry := by
          simp only [isEntryBad, decide_eq_false_iff_not] at hbad
          omega
        have hsize : entrySize = 10 := rfl
        have hnext : fs.blockSize ≤ fuel + (offset + entryLength entry) := by omega
        obtain ⟨stop, hscan, hwalked⟩ := ih (by omega) hnext
        refine ⟨stop, by simpa [emptyVisit, hdots] using hscan, ?_, ?_, ?_⟩
        · simpa [reaches_iff hin hne, IsOther, hbad, hdots] using hwalked.found
        · simpa [reaches_iff hin hne, IsBad, hbad, hdots] using hwalked.bad
        · simpa [onlyDots_iff hin hne, hbad, hdots] using hwalked.dots

end

/-- The loop through the blocks returns success if no block leads to a record other than `.` and
`..`. -/
theorem emptyLoop_spec {behind : Nat → Nat → UInt8} (dir : List Block) (bno : Nat) :
    ∃ result, emptyLoop fs behind dir bno = some result ∧
      (result = .ok () ↔ ∀ p ∈ dir.zipIdx bno,
        ¬ Reaches fs (behind p.2) (IsOther fs (behind p.2)) p.1 0) := by
  induction dir generalizing bno with
  | nil => exact ⟨.ok (), rfl, by simp⟩
  | cons block rest ih =>
    obtain ⟨stop, hscan, hwalked⟩ := @exists_scan_emptyVisit fs (behind bno) block 0 _
      (Nat.zero_lt_of_lt fs.entrySize_lt) (Nat.le_add_right fs.blockSize 0)
    obtain ⟨result, hrest, hresult⟩ := ih (bno + 1)
    simp only [emptyLoop, hscan, Option.bind_some, List.zipIdx_cons, List.forall_mem_cons,
      ← hwalked.found]
    cases stop with
    | found => exact ⟨.error .enotempty, rfl, by simp⟩
    | empty offset => exact ⟨result, hrest, by simpa using hresult⟩
    | full => exact ⟨result, hrest, by simpa using hresult⟩
    | bad => exact ⟨result, hrest, by simpa using hresult⟩

/-- A block has other records, or a bad one, or only `.` and `..`. -/
theorem onlyDots_iff_not_reaches {behind : Nat → UInt8} {block : Block} :
    OnlyDots fs behind block 0 ↔
      ¬ Reaches fs behind (IsOther fs behind) block 0 ∧ ¬ Reaches fs behind (IsBad fs) block 0 := by
  obtain ⟨stop, -, hwalked⟩ := @exists_scan_emptyVisit fs behind block 0 _
    (Nat.zero_lt_of_lt fs.entrySize_lt) (Nat.le_add_right fs.blockSize 0)
  rw [hwalked.dots, ← hwalked.found, ← hwalked.bad]

/-- For any contents of the blocks, it is right whether a directory counts as empty if and only
if some block leads to a valid record other than `.` and `..`, or none leads to a bad record. -/
theorem dirEmpty_iff_onlyDots (behind : Nat → Nat → UInt8) (dir : List Block) :
    ∃ result, dirEmpty fs behind dir = some result ∧
      ((result = .ok () ↔ dir ≠ [] ∧ ∀ p ∈ dir.zipIdx, OnlyDots fs (behind p.2) p.1 0) ↔
        (∃ p ∈ dir.zipIdx, Reaches fs (behind p.2) (IsOther fs (behind p.2)) p.1 0) ∨
          ∀ p ∈ dir.zipIdx, ¬ Reaches fs (behind p.2) (IsBad fs) p.1 0) := by
  rw [dirEmpty]
  by_cases hdir : dir = []
  · exact ⟨.error .enxio, if_pos hdir, by simp [hdir]⟩
  rw [if_neg hdir]
  obtain ⟨result, hloop, hresult⟩ := @emptyLoop_spec fs behind dir 0
  refine ⟨result, hloop, ?_⟩
  rw [hresult]
  simp only [onlyDots_iff_not_reaches, ne_eq, hdir, not_false_eq_true, true_and]
  by_cases hother : ∃ p ∈ dir.zipIdx, Reaches fs (behind p.2) (IsOther fs (behind p.2)) p.1 0
  · -- The directory counts as not empty, and it is not.
    obtain ⟨p, hp, hreaches⟩ := hother
    refine iff_of_true (iff_of_false ?_ ?_) (.inl ⟨p, hp, hreaches⟩)
    · exact fun h => h p hp hreaches
    · exact fun h => (h p hp).1 hreaches
  · have hnone : ∀ p ∈ dir.zipIdx,
        ¬ Reaches fs (behind p.2) (IsOther fs (behind p.2)) p.1 0 :=
      fun p hp hreaches => hother ⟨p, hp, hreaches⟩
    constructor
    · exact fun h => .inr fun p hp => (h.mp hnone p hp).2
    · intro h
      have hbad := h.resolve_left hother
      exact iff_of_true hnone fun p hp => ⟨hnone p hp, hbad p hp⟩

/-- Blocks of 128 bytes and names up to 64 bytes. -/
private def shortBlocks : FileSystem :=
  ⟨128, 64, 100, 255, fun _ => 7, by decide⟩

/-- A file with a name of 60 bytes, below the maximum of 64, is added, and then the directory
counts as empty. -/
theorem dirEmpty_with_file :
    ∃ dir, addEntry shortBlocks (List.replicate 60 97) 2 1 [] = some (.ok dir) ∧
      dirEmpty shortBlocks (fun _ _ => 0) dir = some (.ok ()) ∧
      ¬ ∀ p ∈ dir.zipIdx, OnlyDots shortBlocks (fun _ => 0) p.1 0 := by
  refine ⟨_, rfl, by decide +kernel, fun h => ?_⟩
  refine (onlyDots_iff_not_reaches.mp (h _ (List.mem_cons_self ..))).2 ?_
  exact .here (by decide) (by decide +kernel) (by decide +kernel)

end Rtems.Rfs.Dir
