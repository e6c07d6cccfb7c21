import Rtems.Models.Rfs.File.Write

/-!
# A write changes only what it writes

A write that does not end inside of a full last block of the file leaves the file as long
as it was or as the write reaches; one that does cuts the file off where it ends.
-/

namespace Rtems.Rfs.File

variable {β : Type} [Zero β] {bs : Nat}

/-- Where a write to a file of the given size starts, by a handle inside of the file: a handle
opened for appending writes at the end. -/
def Handle.startsAt (h : Handle) (size : Nat) : Nat :=
  if h.offset < size ∧ h.isAppend = true then size else h.offset

/-- A write by a handle inside of the file whose position is at its offset: the size, the bytes
and the position after it. -/
theorem fileWrite_inside (junk : Nat → Nat → β) {f : Shared β} (hf : f.Valid bs) (hbs : 0 < bs)
    {h : Handle} (hpos : h.bpos = getBpos bs h.offset) (hle : h.offset ≤ f.map.bytes bs)
    (data : Nat → β) (count : Nat) {start : Nat} (hstart : h.startsAt (f.map.bytes bs) = start) :
    ∃ f' h', fileWrite bs junk f h data count = some (f', h') ∧ f'.Valid bs ∧
      f'.map.bytes bs = (if count = 0 then f.map.bytes bs
        else sizeAfter bs (f.map.bytes bs) (start + count)) ∧
      ∀ p, p < f.map.bytes bs ∨ (start ≤ p ∧ p < start + count) →
        f'.map.byteAt bs p = if start ≤ p ∧ p < start + count
          then some (data (p - start)) else f.map.byteAt bs p := by
  have hsize : f.size.bytes bs = f.map.bytes bs := by rw [hf.size]; rfl
  have hin : start ≤ f.map.bytes bs := by
    rw [← hstart, Handle.startsAt]
    split <;> omega
  have hoffset : (getBpos bs start).pos bs = start := pos_getBpos start
  obtain ⟨f', bpos', hloop, hf', -, -, hbytes, hbyte⟩ :=
    writeLoop_spec junk hf (getBpos_boff_lt hbs start) (by rw [hoffset]; exact hin) data
      (Nat.le_refl count)
  rw [hoffset] at hbytes hbyte
  refine ⟨f', { h with offset := start + count, bpos := bpos' }, ?_, hf', hbytes, hbyte⟩
  simp only [fileWrite, hsize, if_neg (Nat.not_lt.mpr hle)]
  unfold Handle.startsAt at hstart
  split at hstart
  next happend =>
    subst hstart
    simp only [if_pos happend, Option.bind_some, hloop, Option.map_some]
  next hplain =>
    subst hstart
    simp only [if_neg hplain, hpos, Option.bind_some, hloop, Option.map_some]

/-- A write of some bytes at an offset has left the file as long as it was or as the bytes reach,
with these bytes at the offset and all others as they were. -/
structure ChangesOnly (bs : Nat) (f f' : Shared β) (offset : Nat) (data : Nat → β)
    (count : Nat) : Prop where
  /-- The size that the handles share. -/
  size : f'.size.bytes bs = max (f.size.bytes bs) (offset + count)
  /-- The size of the block map is the same. -/
  map : f'.map.size = f'.size
  /-- The bytes written. -/
  written : ∀ j, j < count → f'.map.byteAt bs (offset + j) = some (data j)
  /-- The other bytes. -/
  kept : ∀ p, p < f.size.bytes bs → ¬ (offset ≤ p ∧ p < offset + count) →
    f'.map.byteAt bs p = f.map.byteAt bs p

/-- A file of one full block. -/
private def fullBlock : Shared Nat :=
  ⟨⟨[fun j => j], 0⟩, ⟨1, 0⟩⟩

private theorem fullBlock_valid : fullBlock.Valid 512 :=
  ⟨⟨by decide, fun h => absurd h (by decide)⟩, rfl⟩

end Rtems.Rfs.File
