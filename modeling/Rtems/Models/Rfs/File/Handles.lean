import Rtems.Models.Rfs.File.Read
import Rtems.Models.Rfs.File.Resize

/-!
# Handles of a file

Any number of handles work on one file. A handle is in step if its block position is that of
its offset whenever the offset lies in the file. A seek past the end leaves the block
position behind, and so does a truncation; a handle left behind gets out of step when the
file grows past its offset without it, and a truncation to full blocks moves a handle whose
offset lies inside of the last one.
-/

namespace Rtems.Rfs.File

variable {β : Type} {bs : Nat}

/-- A file and its open handles. -/
structure Opened (β : Type) where
  /-- The file. -/
  file : Shared β
  /-- The handles. -/
  handles : List Handle

/-- The size of the file. -/
def Opened.bytes (bs : Nat) (s : Opened β) : Nat :=
  s.file.map.bytes bs

/-- The operations on the handles. -/
inductive Op (β : Type)
  | openHandle (isAppend : Bool)
  | lseek (i pos : Nat)
  | read (i count : Nat) (junk : Nat → Nat → β)
  | write (i : Nat) (data : Nat → β) (count : Nat) (junk : Nat → Nat → β)
  | ftruncate (i length : Nat) (junk : Nat → Nat → β)

/-- One operation. -/
def step [Zero β] (bs : Nat) (s : Opened β) : Op β → Option (Opened β)
  | .openHandle isAppend => some { s with handles := s.handles ++ [⟨0, ⟨0, 0⟩, isAppend⟩] }
  | .lseek i pos =>
    s.handles[i]?.map fun h => { s with handles := s.handles.set i (lseek bs s.file h pos) }
  | .read i count junk =>
    s.handles[i]?.bind fun h =>
      (fileRead bs junk s.file h count).map fun (h, _) => { s with handles := s.handles.set i h }
  | .write i data count junk =>
    s.handles[i]?.bind fun h =>
      (fileWrite bs junk s.file h data count).map fun (f, h) => ⟨f, s.handles.set i h⟩
  | .ftruncate i length junk =>
    s.handles[i]?.bind fun h =>
      (ftruncate bs junk s.file h length).map fun (f, h) => ⟨f, s.handles.set i h⟩

/-- Where a write of the handle starts; a handle opened for appending writes at the end. -/
def writeStart (bs : Nat) (s : Opened β) (h : Handle) : Nat :=
  if h.offset < s.bytes bs ∧ h.isAppend = true then s.bytes bs else h.offset

/-- A handle that the file grows over, from one size to the other, has its block position at
its offset. -/
def Passed (bs size newSize : Nat) (h : Handle) : Prop :=
  size < h.offset → h.offset ≤ newSize → h.bpos = getBpos bs h.offset

instance (bs size newSize : Nat) (h : Handle) : Decidable (Passed bs size newSize h) :=
  inferInstanceAs (Decidable (_ → _ → _))

/-- The handle of the operation is open. -/
def Legal (s : Opened β) : Op β → Prop
  | .openHandle _ => True
  | .lseek i _ => i < s.handles.length
  | .read i _ _ => i < s.handles.length
  | .write i _ _ _ => i < s.handles.length
  | .ftruncate i _ _ => i < s.handles.length

instance (s : Opened β) (op : Op β) : Decidable (Legal s op) :=
  match op with
  | .openHandle _ => inferInstanceAs (Decidable True)
  | .lseek i _ => inferInstanceAs (Decidable (i < s.handles.length))
  | .read i _ _ => inferInstanceAs (Decidable (i < s.handles.length))
  | .write i _ _ _ => inferInstanceAs (Decidable (i < s.handles.length))
  | .ftruncate i _ _ => inferInstanceAs (Decidable (i < s.handles.length))

/-- The operation neither grows the file over a handle left behind, nor shrinks it to full
blocks with its own handle inside of the last one. -/
def KeepsStep (bs : Nat) (s : Opened β) : Op β → Prop
  | .openHandle _ => True
  | .lseek i _ => i < s.handles.length
  | .read i _ _ => i < s.handles.length
  | .write i _ count _ =>
    i < s.handles.length ∧ ∀ h ∈ s.handles[i]?, ∀ g ∈ s.handles.eraseIdx i,
      Passed bs (s.bytes bs) (writeStart bs s h + count) g
  | .ftruncate i length _ =>
    i < s.handles.length ∧ (∀ g ∈ s.handles, Passed bs (s.bytes bs) length g) ∧
      ∀ h ∈ s.handles[i]?, length < s.bytes bs → ¬ InFullLastBlock bs length h.offset

instance (bs : Nat) (s : Opened β) (op : Op β) : Decidable (KeepsStep bs s op) :=
  match op with
  | .openHandle _ => inferInstanceAs (Decidable True)
  | .lseek i _ => inferInstanceAs (Decidable (i < s.handles.length))
  | .read i _ _ => inferInstanceAs (Decidable (i < s.handles.length))
  | .write i _ count _ =>
    inferInstanceAs (Decidable (i < s.handles.length ∧ ∀ h ∈ s.handles[i]?,
      ∀ g ∈ s.handles.eraseIdx i, Passed bs (s.bytes bs) (writeStart bs s h + count) g))
  | .ftruncate i length _ =>
    inferInstanceAs (Decidable (i < s.handles.length ∧
      (∀ g ∈ s.handles, Passed bs (s.bytes bs) length g) ∧
      ∀ h ∈ s.handles[i]?, length < s.bytes bs → ¬ InFullLastBlock bs length h.offset))

/-- The handle is in step with a file of the given size. -/
def Handle.InStep (bs size : Nat) (h : Handle) : Prop :=
  h.offset ≤ size → h.bpos = getBpos bs h.offset

/-- The file is valid and all handles are in step. -/
structure InStep (bs : Nat) (s : Opened β) : Prop where
  /-- The file is valid. -/
  file : s.file.Valid bs
  /-- The handles are in step. -/
  handles : ∀ h ∈ s.handles, h.InStep bs (s.bytes bs)

variable {h : Handle}

theorem Handle.InStep.passed {size newSize size' : Nat} (hstep : h.InStep bs size)
    (hpassed : Passed bs size newSize h) (hle : size' ≤ newSize) : h.InStep bs size' := by
  intro hin
  rcases Nat.lt_or_ge size h.offset with hlt | hge
  · exact hpassed hlt (Nat.le_trans hin hle)
  · exact hstep hge

/-- The members of a list after an update. -/
theorem mem_set_cases {g h : Handle} {l : List Handle} {i : Nat} (hg : g ∈ l.set i h) :
    g = h ∨ g ∈ l.eraseIdx i := by
  obtain ⟨j, hj⟩ := List.mem_iff_getElem?.mp hg
  by_cases hji : j = i
  · subst hji
    by_cases hlt : j < l.length
    · rw [List.getElem?_set_self hlt] at hj
      exact Or.inl (Option.some.inj hj).symm
    · rw [List.getElem?_eq_none (by rw [List.length_set]; omega)] at hj
      cases hj
  · rw [List.getElem?_set_ne (Ne.symm hji)] at hj
    exact Or.inr (List.mem_eraseIdx_iff_getElem?.mpr ⟨j, hji, hj⟩)

variable {f : Shared β}

/-- A read of a handle in step gives the bytes of the file from its offset on, and leaves the
handle in step. -/
theorem fileRead_spec (junk : Nat → Nat → β) (hf : f.Valid bs)
    (hstep : h.InStep bs (f.map.bytes bs)) (count : Nat) :
    ∃ h' bytes, fileRead bs junk f h count = some (h', bytes) ∧
      h'.offset = h.offset + bytes.length ∧ h'.InStep bs (f.map.bytes bs) ∧
      bytes.length = min count (f.map.bytes bs - h.offset) ∧
      bytes.map some = (List.range bytes.length).map fun j => f.map.byteAt bs (h.offset + j) := by
  have hbs : 0 < bs := Nat.zero_lt_of_lt hf.map.offset_lt
  have hsize : f.size.bytes bs = f.map.bytes bs := by rw [hf.size]; rfl
  rw [fileRead, hsize]
  by_cases hlt : h.offset < f.map.bytes bs
  · have hbpos : h.bpos = getBpos bs h.offset := hstep (Nat.le_of_lt hlt)
    have hpos : h.bpos.pos bs = h.offset := by rw [hbpos, pos_getBpos]
    have hboff : h.bpos.boff < bs := by rw [hbpos]; exact getBpos_boff_lt hbs _
    obtain ⟨bpos', bytes, hloop, hboff', hpos', hlength, hbytes⟩ :=
      readLoop_spec junk hf.map hboff (by omega) (Nat.le_refl count)
    rw [hpos] at hpos' hlength hbytes
    rw [if_pos hlt, hloop]
    refine ⟨_, bytes, rfl, rfl, ?_, hlength, hbytes⟩
    intro _
    show bpos' = getBpos bs (h.offset + bytes.length)
    rw [← hpos']
    exact eq_getBpos hboff'
  · rw [if_neg hlt]
    refine ⟨h, [], rfl, rfl, hstep, ?_, rfl⟩
    rw [Nat.sub_eq_zero_of_le (Nat.le_of_not_lt hlt), Nat.min_zero]
    rfl

/-- A write from a position in the file. -/
theorem writeLoop_from (junk : Nat → Nat → β) (hf : f.Valid bs) {start : Nat}
    (hle : start ≤ f.map.bytes bs) (data : Nat → β) (count : Nat) :
    ∃ f', writeLoop bs junk count f (getBpos bs start) data count =
        some (f', getBpos bs (start + count)) ∧ f'.Valid bs ∧
      f'.map.bytes bs ≤ max (f.map.bytes bs) (start + count) ∧
      (∀ j, j < count → f'.map.byteAt bs (start + j) = some (data j)) ∧
      ∀ p, p < start → f'.map.byteAt bs p = f.map.byteAt bs p := by
  have hbs : 0 < bs := Nat.zero_lt_of_lt hf.map.offset_lt
  have hpos : (getBpos bs start).pos bs = start := pos_getBpos start
  obtain ⟨f', bpos', hloop, hf', hboff', hpos', hbytes, hbyte⟩ :=
    writeLoop_spec junk hf (getBpos_boff_lt hbs start) (by rw [hpos]; exact hle) data
      (Nat.le_refl count)
  rw [hpos] at hpos' hbytes hbyte
  refine ⟨f', ?_, hf', ?_, ?_, ?_⟩
  · rw [hloop, ← hpos', ← eq_getBpos hboff']
  · rw [hbytes, sizeAfter]
    split
    · exact Nat.le_max_left _ _
    · split
      · exact Nat.le_max_right _ _
      · exact Nat.le_refl _
  · intro j hj
    rw [hbyte _ (Or.inr ⟨by omega, by omega⟩), if_pos ⟨by omega, by omega⟩,
      Nat.add_sub_cancel_left]
  · intro p hp
    rw [hbyte p (Or.inl (by omega)), if_neg (by omega)]

/-- What a write does from its start on. -/
structure Written (bs : Nat) (s : Opened β) [Zero β] (h : Handle) (data : Nat → β) (count : Nat)
    (f' : Shared β) (h' : Handle) : Prop where
  /-- The file is valid. -/
  file : f'.Valid bs
  /-- The handle is behind the bytes written. -/
  offset : h'.offset = writeStart bs s h + count
  /-- The handle is in step. -/
  bpos : h'.bpos = getBpos bs h'.offset
  /-- The file reaches no further than before or than the bytes written. -/
  bytes : f'.map.bytes bs ≤ max (s.bytes bs) (writeStart bs s h + count)
  /-- The bytes are written. -/
  data : ∀ j, j < count → f'.map.byteAt bs (writeStart bs s h + j) = some (data j)
  /-- The bytes between the end of the file and the offset are zero. -/
  zero : ∀ p, s.bytes bs ≤ p → p < writeStart bs s h → f'.map.byteAt bs p = some 0

variable {s : Opened β}

/-- A write of a handle in step. -/
theorem fileWrite_spec [Zero β] (junk : Nat → Nat → β) (hs : InStep bs s)
    (hh : h ∈ s.handles) (data : Nat → β) (count : Nat) :
    ∃ f' h', fileWrite bs junk s.file h data count = some (f', h') ∧
      Written bs s h data count f' h' := by
  have hf := hs.file
  have hsize : s.file.size.bytes bs = s.bytes bs := by rw [hf.size]; rfl
  simp only [fileWrite, hsize]
  by_cases hpast : s.bytes bs < h.offset
  · -- The file is extended with zeros up to the offset.
    have hstart : writeStart bs s h = h.offset := if_neg (fun hc => absurd hc.1 (by omega))
    obtain ⟨f₁, bpos₁, hset, hf₁, hbytes₁, hzero₁, -⟩ := setSize_spec junk hf h.bpos h.offset
    obtain ⟨f', hloop, hf', hbytes, hdata, hbefore⟩ :=
      writeLoop_from junk hf₁ (Nat.le_of_eq hbytes₁.symm) data count
    refine ⟨f', { h with offset := h.offset + count, bpos := getBpos bs (h.offset + count) }, ?_,
      hf', by rw [hstart], rfl, ?_, ?_, ?_⟩
    · simp only [if_pos hpast, hset, Option.map_some, Option.bind_some, hloop]
    · rw [hstart]
      omega
    · rw [hstart]
      exact hdata
    · rw [hstart]
      intro p hge hlt
      rw [hbefore p hlt]
      exact hzero₁ p hge hlt
  · have hle : writeStart bs s h ≤ s.bytes bs := by
      unfold writeStart
      split <;> omega
    obtain ⟨f', hloop, hf', hbytes, hdata, -⟩ := writeLoop_from junk hf hle data count
    refine ⟨f', { h with
      offset := writeStart bs s h + count
      bpos := getBpos bs (writeStart bs s h + count) }, ?_, hf', rfl, rfl, hbytes, hdata, ?_⟩
    · rw [if_neg hpast]
      by_cases happend : h.offset < s.bytes bs ∧ h.isAppend = true
      · have hstart : writeStart bs s h = s.bytes bs := if_pos happend
        rw [hstart] at hloop ⊢
        simp only [if_pos happend, Option.bind_some, hloop, Option.map_some]
      · have hstart : writeStart bs s h = h.offset := if_neg happend
        have hbpos : h.bpos = getBpos bs h.offset := hs.handles h hh (Nat.le_of_not_lt hpast)
        rw [hstart] at hloop ⊢
        simp only [if_neg happend, Option.bind_some, hbpos, hloop, Option.map_some]
    · intro p hge hlt
      omega

theorem lseek_inStep (hf : f.Valid bs) (h : Handle) (pos : Nat) :
    (lseek bs f h pos).InStep bs (f.map.bytes bs) := by
  have hsize : f.size.bytes bs = f.map.bytes bs := by rw [hf.size]; rfl
  rw [lseek, hsize]
  split
  next => exact fun _ => rfl
  next hpast => exact fun hin => absurd hin hpast

/-- A truncation that keeps its handle in step. -/
theorem ftruncate_spec [Zero β] (junk : Nat → Nat → β) (hf : f.Valid bs)
    (hstep : h.InStep bs (f.map.bytes bs)) (length : Nat) :
    ∃ f' h', ftruncate bs junk f h length = some (f', h') ∧ f'.Valid bs ∧
      f'.map.bytes bs = length ∧
      (Passed bs (f.map.bytes bs) length h →
        (length < f.map.bytes bs → ¬ InFullLastBlock bs length h.offset) →
        h'.InStep bs length) := by
  obtain ⟨f', bpos', hset, hf', hbytes, -, hbpos⟩ := setSize_spec junk hf h.bpos length
  refine ⟨f', { h with bpos := bpos' }, ?_, hf', hbytes, ?_⟩
  · simp only [ftruncate, hset, Option.map_some]
  · intro hpassed hout hin
    exact hbpos h.offset hin (hstep.passed hpassed (Nat.le_refl _) hin) hout

/-- An update of the file and of one handle keeps all handles in step, if the other ones are
not passed while they are left behind. -/
theorem InStep.update (hs : InStep bs s) {i : Nat} {f' : Shared β} {h' : Handle}
    {newSize : Nat} (hf' : f'.Valid bs) (hbytes : f'.map.bytes bs ≤ newSize)
    (hpassed : ∀ g ∈ s.handles.eraseIdx i, Passed bs (s.bytes bs) newSize g)
    (hh' : h'.InStep bs (f'.map.bytes bs)) : InStep bs ⟨f', s.handles.set i h'⟩ := by
  refine ⟨hf', ?_⟩
  intro g hg
  rcases mem_set_cases hg with rfl | hother
  · exact hh'
  · exact (hs.handles g (List.mem_of_mem_eraseIdx hother)).passed (hpassed g hother) hbytes

/-- An operation that keeps the handles in step returns, and they are in step after it. -/
theorem InStep.step [Zero β] (hs : InStep bs s) {op : Op β}
    (hop : KeepsStep bs s op) : ∃ t, File.step bs s op = some t ∧ InStep bs t := by
  have hsame : ∀ i, ∀ g ∈ s.handles.eraseIdx i, Passed bs (s.bytes bs) (s.bytes bs) g :=
    fun _ _ _ hlt hle => absurd hlt (Nat.not_lt.mpr hle)
  cases op with
  | openHandle isAppend =>
    refine ⟨_, rfl, hs.file, ?_⟩
    intro g hg
    rcases List.mem_append.mp hg with hold | hnew
    · exact hs.handles g hold
    · rw [List.mem_singleton.mp hnew]
      intro _
      simp [getBpos]
  | lseek i pos =>
    have hi : i < s.handles.length := hop
    refine ⟨⟨s.file, s.handles.set i (File.lseek bs s.file s.handles[i] pos)⟩, ?_, ?_⟩
    · simp only [File.step, List.getElem?_eq_getElem hi, Option.map_some]
    · exact hs.update hs.file (Nat.le_refl _) (hsame i) (lseek_inStep hs.file _ pos)
  | read i count junk =>
    have hi : i < s.handles.length := hop
    obtain ⟨h', bytes, hread, -, hh', -⟩ :=
      fileRead_spec junk hs.file (hs.handles _ (List.getElem_mem hi)) count
    refine ⟨⟨s.file, s.handles.set i h'⟩, ?_, ?_⟩
    · simp only [File.step, List.getElem?_eq_getElem hi, Option.bind_some, hread, Option.map_some]
    · exact hs.update hs.file (Nat.le_refl _) (hsame i) hh'
  | write i data count junk =>
    obtain ⟨hi, hpassed⟩ := hop
    have hget := List.getElem?_eq_getElem hi
    obtain ⟨f', h', hwrite, hwritten⟩ :=
      fileWrite_spec junk hs (List.getElem_mem hi) data count
    refine ⟨⟨f', s.handles.set i h'⟩, ?_, ?_⟩
    · simp only [File.step, hget, Option.bind_some, hwrite, Option.map_some]
    · refine hs.update hwritten.file hwritten.bytes ?_ (fun _ => hwritten.bpos)
      intro g hg hlt hle
      exact hpassed _ hget g hg hlt (by omega)
  | ftruncate i length junk =>
    obtain ⟨hi, hpassed, hout⟩ := hop
    have hget := List.getElem?_eq_getElem hi
    have hmem := List.getElem_mem hi
    obtain ⟨f', h', htruncate, hf', hbytes, hh'⟩ :=
      ftruncate_spec junk hs.file (hs.handles _ hmem) length
    refine ⟨⟨f', s.handles.set i h'⟩, ?_, ?_⟩
    · simp only [File.step, hget, Option.bind_some, htruncate, Option.map_some]
    · refine hs.update hf' (Nat.le_of_eq hbytes)
        (fun g hg => hpassed g (List.mem_of_mem_eraseIdx hg)) ?_
      rw [hbytes]
      exact hh' (hpassed _ hmem) (hout _ hget)

/-- A file of two full blocks. -/
private def twoBlocks : Shared Nat :=
  ⟨⟨[fun j => j, fun j => 512 + j], 0⟩, ⟨2, 0⟩⟩

/-- One handle truncates the file and another one seeks past the end; the first one writes
some bytes before that offset, and the second one reaches it with a write of its own. -/
private def pastEnd : List (Op Nat) :=
  [.openHandle false, .openHandle false, .lseek 0 700, .ftruncate 0 600 fun _ _ => 7,
    .lseek 1 1000, .lseek 0 600, .write 0 (fun j => 3 + j) 10 fun _ _ => 7,
    .write 1 (fun j => 5 + j) 4 fun _ _ => 7, .lseek 0 998]

end Rtems.Rfs.File
