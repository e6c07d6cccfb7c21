import Rtems.Models.Rfs.Dir.Lookup

/-!
# Reading a directory

An offset that a read returns is the place of an entry or of the end of the records in a
block, with room for a record, or the start of the block behind the last one. From such an
offset the reads go through the entries behind it.
-/

namespace Rtems.Rfs.Dir

variable {fs : FileSystem}

/-- The offset is a place from which the given entries are still to be read. -/
inductive At (pages : List (Page fs)) : Nat → List (Entry fs) → Prop
  /-- Inside of a page. -/
  | inside {before after : List (Page fs)} {p : Page fs} {es es' : List (Entry fs)}
      (hpages : pages = before ++ p :: after) (hp : p.entries = es ++ es')
      (hroom : total es < fs.blockSize - entrySize) :
      At pages (before.length * fs.blockSize + total es) (es' ++ allEntries after)
  /-- Behind the last page. -/
  | behind : At pages (pages.length * fs.blockSize) []

/-- The start of a page, or what is behind the last page. -/
theorem At.start (before after : List (Page fs)) :
    At (before ++ after) (before.length * fs.blockSize) (allEntries after) := by
  cases after with
  | nil =>
    have h : At (before ++ []) ((before ++ []).length * fs.blockSize) [] := .behind
    rwa [List.append_nil] at h ⊢
  | cons p after =>
    have hroom : 0 < fs.blockSize - entrySize := Nat.sub_pos_of_lt fs.entrySize_lt
    have h : At (before ++ p :: after)
        (before.length * fs.blockSize + total ([] : List (Entry fs)))
        (p.entries ++ allEntries after) :=
      .inside rfl rfl (by rwa [total_nil])
    rwa [total_nil, Nat.add_zero] at h

/-- What a read gives of an entry. -/
def IsDirent (e : Entry fs) (d : Dirent) : Prop :=
  d.ino = e.ino.toNat ∧ d.name = e.name.take fs.nameMax

theorem take_name (e : Entry fs) (rest : List UInt8) :
    ((e.bytes ++ rest).drop entrySize).take (min (e.size - entrySize) fs.nameMax) =
      e.name.take fs.nameMax := by
  have hlength : e.size - entrySize = e.name.length := Nat.add_sub_cancel_left _ _
  rw [e.name_bytes, hlength, List.take_append_of_le_length (Nat.min_le_left _ _)]
  rcases Nat.le_total e.name.length fs.nameMax with hle | hle
  · rw [Nat.min_eq_left hle, List.take_length, List.take_of_length_le hle]
  · rw [Nat.min_eq_right hle]

variable {pages before after : List (Page fs)} {es es' : List (Entry fs)} {p : Page fs}

/-- The result of a read at an offset from which the given entries are still to be read. -/
def Reads (pages : List (Page fs)) (offset : Nat) (result : Except Errno (Dirent × Nat)) :
    List (Entry fs) → Prop
  | [] => result = .error .enoent
  | e :: rest => ∃ d length, result = .ok (d, length) ∧ IsDirent e d ∧ At pages (offset + length) rest

theorem readLoop_end {es : List (Entry fs)} (hp : p.entries = es)
    (hroom : total es < fs.blockSize - entrySize) (offset length : Nat) (rest : List Block) :
    readLoop fs offset (p.block :: rest) (total es) length =
      readLoop fs offset rest 0 (length + (fs.blockSize - total es)) := by
  have hentry : p.block.drop (total es) = filler fs (total es) := by
    rw [drop_block (show p.entries = es ++ [] by rw [hp, List.append_nil])]
    simp
  simp only [readLoop, hentry, entryLength_filler hroom, ne_eq, not_true, if_false]

section

variable (hpages : pages = before ++ p :: after)
include hpages

/-- The place behind an entry, which is the next block if there is no room for a record. -/
theorem At.next {e : Entry fs} (hp : p.entries = es ++ e :: es') :
    At pages (before.length * fs.blockSize +
        (if total es + e.size < fs.blockSize - entrySize then total es + e.size
          else fs.blockSize)) (es' ++ allEntries after) := by
  have hp' : p.entries = (es ++ [e]) ++ es' := by rw [hp]; simp
  have htotal : total (es ++ [e]) = total es + e.size := by simp
  split
  next hroom =>
    rw [← htotal] at hroom ⊢
    exact .inside hpages hp' hroom
  next hfull =>
    have hes' : es' = [] := by
      cases es' with
      | nil => rfl
      | cons e' es' =>
        have hlt := p.total_lt
        have hsize := e'.size_pos
        rw [hp, total_append, total_cons, total_cons] at hlt
        omega
    have h := At.start (before ++ [p]) after
    rw [List.append_assoc, List.singleton_append, ← hpages, List.length_append,
      List.length_singleton, Nat.succ_mul] at h
    rwa [hes', List.nil_append]

/-- The loop of a read at an entry. -/
theorem readLoop_entry {e : Entry fs}
    (hp : p.entries = es ++ e :: es') {offset length : Nat}
    (hpos : offset + length = before.length * fs.blockSize + total es) (rest : List Block) :
    Reads pages offset (readLoop fs offset (p.block :: rest) (total es) length)
      (e :: (es' ++ allEntries after)) := by
  have hlt := p.total_lt
  rw [hp, total_append, total_cons] at hlt
  have hentry : p.block.drop (total es) = e.bytes ++ (encode es' ++
      filler fs (total es + total (e :: es'))) := by
    rw [drop_block hp, encode_cons, List.append_assoc]
  simp only [readLoop, hentry, e.length_field_bytes, e.ino_bytes, e.not_bad, take_name,
    ne_eq, e.size_ne_empty, not_false_iff, if_true, Bool.false_eq_true, if_false]
  refine ⟨_, _, rfl, ⟨rfl, rfl⟩, ?_⟩
  have hnext := At.next hpages hp
  have hlength : offset + ((length : Int) + e.size +
      (if (fs.blockSize : Int) - (total es + e.size) ≤ entrySize
        then (fs.blockSize : Int) - (total es + e.size) else 0)).toNat =
      before.length * fs.blockSize + (if total es + e.size < fs.blockSize - entrySize
        then total es + e.size else fs.blockSize) := by
    split <;> split <;> omega
  rwa [hlength]

/-- The loop of a read from a place inside of a page. -/
theorem readLoop_spec (hp : p.entries = es ++ es') (hroom : total es < fs.blockSize - entrySize)
    {offset length : Nat} (hpos : offset + length = before.length * fs.blockSize + total es) :
    Reads pages offset (readLoop fs offset (p.block :: blocks after) (total es) length)
      (es' ++ allEntries after) := by
  induction after generalizing before p es es' length with
  | nil =>
    cases es' with
    | nil =>
      rw [List.append_nil] at hp
      rw [readLoop_end hp hroom]
      rfl
    | cons e es' => exact readLoop_entry hpages hp hpos _
  | cons q after ih =>
    cases es' with
    | nil =>
      rw [List.append_nil] at hp
      have hstart : total ([] : List (Entry fs)) < fs.blockSize - entrySize :=
        Nat.sub_pos_of_lt fs.entrySize_lt
      have hpages' : pages = (before ++ [p]) ++ q :: after := by rw [hpages]; simp
      have hpos' : offset + (length + (fs.blockSize - total es)) =
          (before ++ [p]).length * fs.blockSize + total ([] : List (Entry fs)) := by
        rw [List.length_append, List.length_singleton, Nat.succ_mul, total_nil]
        omega
      rw [readLoop_end hp hroom]
      exact ih hpages' (List.nil_append q.entries).symm hstart hpos'
    | cons e es' => exact readLoop_entry hpages hp hpos _

end

section

variable {offset : Nat} {rest : List (Entry fs)} (h : At pages offset rest)
include h

/-- `rtems_rfs_dir_read` from a place from which entries are still to be read. -/
theorem At.read : Reads pages offset (Dir.read fs (blocks pages) offset) rest := by
  have hbs : 0 < fs.blockSize := Nat.zero_lt_of_lt fs.entrySize_lt
  have hsize := fs.entrySize_lt
  cases h with
  | @inside before after p es es' hpages hp hroom =>
    obtain ⟨offset, hoffset⟩ := @exists_eq _ (before.length * fs.blockSize + total es)
    have hlt : total es < fs.blockSize := by omega
    obtain ⟨hdiv, hmod⟩ := (Nat.div_mod_unique hbs (a := offset) (d := before.length)).mpr
      ⟨by rw [hoffset, Nat.add_comm, Nat.mul_comm], hlt⟩
    have hblocks : blocks pages = blocks before ++ p.block :: blocks after := by
      simp [blocks, hpages]
    have hlength : (blocks before).length = before.length := List.length_map _
    rw [← hoffset, Dir.read]
    simp only [hmod, if_neg (show ¬ fs.blockSize - total es ≤ entrySize by omega), hdiv, hblocks,
      List.drop_left' hlength]
    exact readLoop_spec hpages hp hroom hoffset
  | behind =>
    have hmod : pages.length * fs.blockSize % fs.blockSize = 0 := Nat.mul_mod_left _ _
    have hdiv : pages.length * fs.blockSize / fs.blockSize = pages.length :=
      Nat.mul_div_cancel _ hbs
    have hdrop : (blocks pages).drop pages.length = [] := by simp [blocks]
    show Dir.read fs (blocks pages) _ = _
    rw [Dir.read]
    simp only [hmod, Nat.sub_zero, if_neg (Nat.not_le.mpr hsize), hdiv, hdrop]
    rfl

/-- Reading on gives all entries that are still to be read, each once. -/
theorem At.readAll :
    ∃ ds, (∀ fuel, rest.length < fuel →
        Dir.readAll fs (blocks pages) fuel offset = some (.ok ds)) ∧
      ds.map (fun d => (d.name, d.ino)) =
        rest.map fun e => (e.name.take fs.nameMax, e.ino.toNat) := by
  induction rest generalizing offset with
  | nil =>
    have hread : Dir.read fs (blocks pages) offset = .error .enoent := h.read
    refine ⟨[], fun fuel hfuel => ?_, rfl⟩
    obtain ⟨fuel, rfl⟩ : ∃ k, fuel = k + 1 := ⟨fuel - 1, by omega⟩
    rw [Dir.readAll, hread]
  | cons e rest ih =>
    obtain ⟨d, length, hread, hd, hnext⟩ := h.read
    obtain ⟨ds, hds, hall⟩ := ih hnext
    refine ⟨d :: ds, fun fuel hfuel => ?_, ?_⟩
    · obtain ⟨fuel, rfl⟩ : ∃ k, fuel = k + 1 := ⟨fuel - 1, by omega⟩
      rw [Dir.readAll, hread]
      simp only [hds fuel (Nat.lt_of_succ_lt_succ hfuel), Option.map_some]
      rfl
    · rw [List.map_cons, List.map_cons, hall, hd.1, hd.2]

end

end Rtems.Rfs.Dir
