import Rtems.Core.Run

/-!
# The buffer of the capture engine

The records lie one behind the other. One that does not fit behind the last goes to the front,
and the end moves in to where the last one ended. The code takes the buffer for wrapped if the
head is before the tail, so it must not be filled up to the tail, and a buffer without bytes in
use must not wrap. A record without bytes at the moved-in end would be lost from sight.
-/

namespace Rtems.Capture

/-- The memory of a record. -/
structure Record where
  start : Nat
  size : Nat
  deriving DecidableEq

/-- `rtems_capture_buffer`, with the field `end` as `last`. -/
structure Buffer where
  size : Nat
  count : Nat
  head : Nat
  tail : Nat
  last : Nat
  maxRec : Nat

/-- `rtems_capture_buffer_create`. -/
def Buffer.create (size : Nat) : Buffer := ⟨size, 0, 0, 0, size, 0⟩

/-- `rtems_capture_buffer_peek`. -/
def Buffer.peek (b : Buffer) : Option Record :=
  if b.count = 0 then none
  else some ⟨b.tail, if b.tail > b.head then b.last - b.tail else b.head - b.tail⟩

/-- The end of the free space behind the head. -/
def Buffer.freeEnd (b : Buffer) : Nat := if b.tail > b.head then b.tail else b.last

/-- `rtems_capture_buffer_allocate`, where a `size_t` has `m` values. -/
def Buffer.allocate (m : Nat) (b : Buffer) (size : Nat) : Option Record × Buffer :=
  if (b.count + size) % m ≤ b.last then
    let last := b.freeEnd
    let count := (b.count + size) % m
    let maxRec := if b.maxRec < size then size else b.maxRec
    if (b.head + size) % m ≤ last then
      (some ⟨b.head, size⟩, { b with head := (b.head + size) % m, count, maxRec })
    else if last ≠ b.tail ∧ b.tail ≥ size then
      (some ⟨0, size⟩, { b with last := b.head, head := size, count, maxRec })
    else (none, b)
  else (none, b)

/-- `rtems_capture_buffer_free`. -/
def Buffer.free (b : Buffer) (size : Nat) : Buffer :=
  if size = 0 then b
  else
    let next := b.tail + size
    let count := b.count - size
    if next = b.last then { b with count, last := b.size, tail := 0 }
    else { b with count, tail := next }

/-- A buffer and its records that are not yet freed, the oldest first. -/
structure State where
  buffer : Buffer
  records : List Record

inductive Op
  | allocate (size : Nat)
  | free (n : Nat)

/-- The bytes of the records. -/
def total (records : List Record) : Nat := (records.map Record.size).sum

/-- One call: the allocation of a record, or the release of the oldest records. -/
def step (m : Nat) (s : State) : Op → Option State
  | .allocate size =>
    let result := s.buffer.allocate m size
    some ⟨result.2, s.records ++ result.1.toList⟩
  | .free n => some ⟨s.buffer.free (total (s.records.take n)), s.records.drop n⟩

/-- The record lies in the memory. -/
def Record.In (r : Record) (memory : Record) : Prop :=
  memory.start ≤ r.start ∧ r.start + r.size ≤ memory.start + memory.size

/-- Only records that `peek` shows are freed. -/
def Legal (s : State) : Op → Prop
  | .allocate _ => True
  | .free n => ∀ r ∈ s.records.take n, ∃ seen ∈ s.buffer.peek, r.In seen

/-- A record that goes behind the head does not fill the buffer up to the tail. One that goes to
the front does not either, there are bytes in use, and the newest record has some. The sums are
numbers of the type. Nothing is asked of an allocation that is refused. -/
def Buffer.SafeFor (m : Nat) (b : Buffer) (newest : Option Record) (size : Nat) : Prop :=
  (b.count + size) % m ≤ b.last →
    if (b.head + size) % m ≤ b.freeEnd then
      b.count + size < m ∧ b.head + size < m ∧ (b.head < b.tail → b.head + size ≠ b.tail)
    else
      b.freeEnd ≠ b.tail ∧ size ≤ b.tail →
        b.count + size < m ∧ size ≠ b.tail ∧ b.count ≠ 0 ∧ ∀ r ∈ newest, r.size ≠ 0

/-- The allocations are safe. -/
def Safe (m : Nat) (s : State) : Op → Prop
  | .allocate size => s.buffer.SafeFor m s.records.getLast? size
  | .free _ => True

/-- The records fill the memory between two positions. -/
def Tiles : Nat → List Record → Nat → Prop
  | a, [], b => a = b
  | a, r :: rs, b => r.start = a ∧ Tiles (a + r.size) rs b

/-- The records are behind the tail, or some of them at the front and the last one before the end
has bytes; or the last byte was freed and the head is still behind it. -/
inductive Sound (b : Buffer) : List Record → Prop
  | straight {rs : List Record} : b.last = b.size → b.head ≤ b.size → Tiles b.tail rs b.head →
      Sound b rs
  | drained {rs : List Record} : b.last = b.size → b.head = b.size → b.tail = 0 →
      Tiles b.size rs b.size → Sound b rs
  | wrapped {older newer : List Record} {r : Record} : b.last ≤ b.size → b.head < b.tail →
      r.size ≠ 0 → Tiles b.tail (older ++ [r]) b.last → Tiles 0 newer b.head →
      Sound b (older ++ [r] ++ newer)

variable {a c m n size : Nat} {b : Buffer} {rs rs' : List Record} {s : State}

theorem total_append : total (rs ++ rs') = total rs + total rs' := by simp [total]

theorem total_singleton (r : Record) : total [r] = r.size := by simp [total]

theorem tiles_append : Tiles a (rs ++ rs') c ↔ ∃ b, Tiles a rs b ∧ Tiles b rs' c := by
  induction rs generalizing a with
  | nil => simp [Tiles]
  | cons r rs ih => simp [Tiles, ih, and_assoc]

theorem Tiles.eq_add (h : Tiles a rs c) : c = a + total rs := by
  induction rs generalizing a with
  | nil => simpa [total, Tiles] using h.symm
  | cons r rs ih =>
    rw [ih h.2, total, total, List.map_cons, List.sum_cons]
    omega

theorem Tiles.snoc (h : Tiles a rs c) (n : Nat) : Tiles a (rs ++ [⟨c, n⟩]) (c + n) :=
  tiles_append.mpr ⟨c, h, rfl, rfl⟩

theorem Tiles.mem (h : Tiles a rs c) {r : Record} (hr : r ∈ rs) :
    a ≤ r.start ∧ r.start + r.size ≤ c := by
  obtain ⟨before, after, rfl⟩ := List.append_of_mem hr
  obtain ⟨_, hbefore, hstart, hafter⟩ := tiles_append.mp h
  have := hbefore.eq_add
  have := hafter.eq_add
  omega

theorem Tiles.apart (h : Tiles a rs c) : rs.Pairwise fun r r' => r.start + r.size ≤ r'.start := by
  induction rs generalizing a with
  | nil => exact .nil
  | cons r rs ih =>
    refine .cons (fun r' hr' => ?_) (ih h.2)
    rw [h.1]
    exact (h.2.mem hr').1

/-- The records are in the buffer. -/
theorem Sound.mem (h : Sound b rs) {r : Record} (hr : r ∈ rs) : r.start + r.size ≤ b.size := by
  cases h with
  | straight hlast hhead htiles =>
    have := htiles.mem hr
    omega
  | drained hlast hhead htail htiles => exact (htiles.mem hr).2
  | wrapped hlast hlt hsize holder hnewer =>
    have := holder.eq_add
    rcases List.mem_append.mp hr with hr | hr
    · have := holder.mem hr
      omega
    · have := hnewer.mem hr
      omega

/-- A record behind the head that does not reach the tail keeps the others in their places. -/
theorem Sound.allocate_behind (h : Sound b rs) (hfits : b.head + n ≤ b.freeEnd)
    (hne : b.head < b.tail → b.head + n ≠ b.tail) (count maxRec : Nat) :
    Sound { b with head := b.head + n, count, maxRec } (rs ++ [⟨b.head, n⟩]) := by
  unfold Buffer.freeEnd at hfits
  cases h with
  | straight hlast hle htiles =>
    rw [if_neg (by have := htiles.eq_add; omega), hlast] at hfits
    exact .straight hlast hfits (htiles.snoc n)
  | drained hlast hhead htail htiles =>
    rw [if_neg (by omega), hlast, hhead] at hfits
    obtain rfl : n = 0 := by omega
    rw [hhead]
    exact .drained hlast rfl htail (htiles.snoc 0)
  | wrapped hlast hlt hsize holder hnewer =>
    rw [if_pos hlt] at hfits
    rw [List.append_assoc]
    exact .wrapped hlast (Nat.lt_of_le_of_ne hfits (hne hlt)) hsize holder (hnewer.snoc n)

/-- A record at the front of a buffer that is not wrapped keeps the others in their places. -/
theorem Sound.allocate_front (h : Sound b rs) (hend : b.freeEnd ≠ b.tail) (hlt : n < b.tail)
    (hbytes : total rs ≠ 0) (hnewest : ∀ r ∈ rs.getLast?, r.size ≠ 0) (count maxRec : Nat) :
    Sound { b with last := b.head, head := n, count, maxRec } (rs ++ [⟨0, n⟩]) := by
  cases h with
  | straight hlast hle htiles =>
    rcases List.eq_nil_or_concat rs with rfl | ⟨older, r, rfl⟩
    · exact absurd rfl hbytes
    · rw [List.concat_eq_append] at *
      exact .wrapped hle hlt (hnewest r (by simp)) htiles ⟨rfl, Nat.zero_add n⟩
  | drained hlast hhead htail => omega
  | wrapped hlast hlt => exact absurd (if_pos hlt) hend

/-- An allocation keeps the records in their places. -/
theorem Sound.allocate (h : Sound b rs) (hcount : b.count = total rs)
    (hsafe : b.SafeFor m rs.getLast? n) :
    Sound (b.allocate m n).2 (rs ++ (b.allocate m n).1.toList) ∧
      (b.allocate m n).2.count = total (rs ++ (b.allocate m n).1.toList) ∧
      (b.allocate m n).2.size = b.size := by
  have hsum (i : Nat) : b.count + n = total (rs ++ [⟨i, n⟩]) := by
    rw [total_append, total_singleton, hcount]
  have hsame : Sound b (rs ++ []) ∧ b.count = total (rs ++ []) ∧ b.size = b.size := by
    simpa using ⟨h, hcount⟩
  rw [Buffer.allocate]
  by_cases hroom : (b.count + n) % m ≤ b.last
  · have hsafe := hsafe hroom
    rw [if_pos hroom]
    by_cases hfits : (b.head + n) % m ≤ b.freeEnd
    · rw [if_pos hfits] at hsafe ⊢
      obtain ⟨hcountlt, hheadlt, hne⟩ := hsafe
      rw [Nat.mod_eq_of_lt hheadlt] at hfits ⊢
      rw [Nat.mod_eq_of_lt hcountlt]
      exact ⟨h.allocate_behind hfits hne _ _, hsum _, rfl⟩
    · rw [if_neg hfits] at hsafe ⊢
      by_cases hwrap : b.freeEnd ≠ b.tail ∧ b.tail ≥ n
      · obtain ⟨hcountlt, hne, hbytes, hnewest⟩ := hsafe hwrap
        rw [if_pos hwrap, Nat.mod_eq_of_lt hcountlt]
        exact ⟨h.allocate_front hwrap.1 (Nat.lt_of_le_of_ne hwrap.2 hne) (hcount ▸ hbytes)
          hnewest _ _, hsum _, rfl⟩
      · rw [if_neg hwrap]
        exact hsame
  · rw [if_neg hroom]
    exact hsame

/-- The freed records of a wrapped buffer are some of the older ones. -/
theorem freed_older {older newer : List Record} {r : Record} (hlt : b.head < b.tail)
    (hnewer : Tiles 0 newer b.head) (hlegal : ∀ r ∈ rs, ∃ seen ∈ b.peek, r.In seen)
    (hall : rs ++ rs' = older ++ [r] ++ newer) :
    rs = older ++ [r] ∧ rs' = newer ∨
      ∃ kept, older = rs ++ kept ∧ rs' = kept ++ [r] ++ newer := by
  rcases List.append_eq_append_iff.mp hall with ⟨kept, hold, hnew⟩ | ⟨front, hold, hnew⟩
  · rcases List.eq_nil_or_concat kept with rfl | ⟨kept, r', rfl⟩
    · exact .inl ⟨by simpa using hold.symm, hnew⟩
    · rw [List.concat_eq_append, ← List.append_assoc] at hold
      obtain ⟨hkept, hr⟩ := List.append_inj' hold rfl
      obtain rfl := List.singleton_inj.mp hr
      exact .inr ⟨kept, hkept, by rw [hnew, List.concat_eq_append]⟩
  · cases front with
    | nil => exact .inl ⟨by simpa using hold, by simpa using hnew.symm⟩
    | cons r' front =>
      -- A record at the front is not in the memory that is shown.
      obtain ⟨seen, hseen, hin, -⟩ := hlegal r' (by simp [hold])
      have hmem := (hnewer.mem (show r' ∈ newer by simp [hnew])).2
      have hstart : seen.start = b.tail := by
        unfold Buffer.peek at hseen
        split at hseen
        · cases hseen
        · exact (Option.some.inj hseen) ▸ rfl
      omega

/-- Freeing the oldest records keeps the others in their places. -/
theorem Sound.free (h : Sound b (rs ++ rs')) (hcount : b.count = total (rs ++ rs'))
    (hlegal : ∀ r ∈ rs, ∃ seen ∈ b.peek, r.In seen) :
    Sound (b.free (total rs)) rs' ∧ (b.free (total rs)).count = total rs' ∧
      (b.free (total rs)).size = b.size := by
  rw [total_append] at hcount
  have hleft : b.count - total rs = total rs' := by omega
  generalize hall : rs ++ rs' = all at h
  unfold Buffer.free
  cases h with
  | straight hlast hle htiles =>
    subst hall
    obtain ⟨c, hfreed, hrest⟩ := tiles_append.mp htiles
    obtain rfl := hfreed.eq_add
    have hhead := hrest.eq_add
    split
    next hzero =>
      rw [hzero] at hrest hleft
      exact ⟨.straight hlast hle hrest, hleft, rfl⟩
    next hzero =>
      dsimp only
      split
      next hend =>
        have hfull : b.head = b.size := by omega
        rw [hend, hfull, hlast] at hrest
        exact ⟨.drained rfl hfull rfl hrest, hleft, rfl⟩
      next hend => exact ⟨.straight hlast hle hrest, hleft, rfl⟩
  | drained hlast hhead htail htiles =>
    subst hall
    obtain ⟨c, hfreed, hrest⟩ := tiles_append.mp htiles
    have hzero : total rs = 0 := by
      have := hfreed.eq_add
      have := hrest.eq_add
      omega
    obtain rfl := hfreed.eq_add
    rw [hzero] at hrest hleft
    rw [if_pos hzero]
    exact ⟨.drained hlast hhead htail hrest, hleft, rfl⟩
  | @wrapped older newer r hlast hlt hsize holder hnewer =>
    rcases freed_older hlt hnewer hlegal hall with ⟨rfl, rfl⟩ | ⟨kept, rfl, rfl⟩
    · have hnext := holder.eq_add
      have hbytes : total (older ++ [r]) ≠ 0 := by
        rw [total_append, total_singleton]
        omega
      rw [if_neg hbytes, if_pos hnext.symm]
      exact ⟨.straight rfl (by dsimp only; omega) hnewer, hleft, rfl⟩
    · rw [List.append_assoc] at holder
      obtain ⟨c, hfreed, hrest⟩ := tiles_append.mp holder
      obtain rfl := hfreed.eq_add
      split
      next hzero =>
        rw [hzero] at hrest hleft
        exact ⟨.wrapped hlast hlt hsize hrest hnewer, hleft, rfl⟩
      next hzero =>
        have hend : b.tail + total rs ≠ b.last := by
          have := hrest.eq_add
          rw [total_append, total_singleton] at this
          omega
        dsimp only
        rw [if_neg hend]
        exact ⟨.wrapped hlast (by dsimp only; omega) hsize hrest hnewer, hleft, rfl⟩

/-- A sound buffer counts the bytes of its records. -/
def Counted (size : Nat) (s : State) : Prop :=
  Sound s.buffer s.records ∧ s.buffer.count = total s.records ∧ s.buffer.size = size

theorem counted_of_run {actions : List Op}
    (hrun : Run (step m) (fun s op => Legal s op ∧ Safe m s op) ⟨.create size, []⟩ actions s) :
    Counted size s := by
  refine hrun.invariant (Counted size) ⟨.straight rfl (Nat.zero_le _) rfl, rfl, rfl⟩ ?_
  rintro s op t ⟨h, hcount, hsize⟩ ⟨hlegal, hsafe⟩ hstep
  cases op with
  | allocate n =>
    obtain rfl := Option.some.inj hstep
    obtain ⟨h', hcount', hsize'⟩ := h.allocate hcount hsafe
    exact ⟨h', hcount', hsize'.trans hsize⟩
  | free n =>
    obtain rfl := Option.some.inj hstep
    rw [← List.take_append_drop n s.records] at h hcount
    obtain ⟨h', hcount', hsize'⟩ := h.free hcount hlegal
    exact ⟨h', hcount', hsize'.trans hsize⟩

/-- `peek` shows the oldest record. -/
theorem Sound.peek (h : Sound b rs) (hcount : b.count = total rs) (hne : b.count ≠ 0) :
    ∃ r rest seen, rs = r :: rest ∧ b.peek = some seen ∧ seen.start = r.start ∧ r.In seen := by
  obtain ⟨r, rest, rfl⟩ : ∃ r rest, rs = r :: rest := by
    cases rs with
    | nil => exact absurd hcount hne
    | cons r rest => exact ⟨r, rest, rfl⟩
  rw [Buffer.peek, if_neg hne]
  refine ⟨r, rest, _, rfl, rfl, ?_⟩
  unfold Record.In
  generalize hall : r :: rest = all at h
  cases h with
  | straight hlast hhead htiles =>
    subst hall
    have := htiles.mem List.mem_cons_self
    have := htiles.1
    rw [if_neg (by omega)]
    dsimp only
    omega
  | drained hlast hhead htail htiles =>
    subst hall
    have := htiles.eq_add
    omega
  | @wrapped older newer r' hlast hlt hsize holder hnewer =>
    obtain ⟨hmem, hstart⟩ : r ∈ older ++ [r'] ∧ r.start = b.tail := by
      cases older with
      | nil =>
        obtain ⟨rfl, -⟩ := List.cons.inj hall
        exact ⟨by simp, holder.1⟩
      | cons first older =>
        obtain ⟨rfl, -⟩ := List.cons.inj hall
        exact ⟨by simp, holder.1⟩
    have := holder.mem hmem
    rw [if_pos hlt]
    dsimp only
    omega

/-- Two records have no byte in common. -/
def Record.Apart (r r' : Record) : Prop :=
  r.start + r.size ≤ r'.start ∨ r'.start + r'.size ≤ r.start

theorem Sound.apart (h : Sound b rs) : rs.Pairwise Record.Apart := by
  cases h with
  | straight hlast hhead htiles => exact htiles.apart.imp .inl
  | drained hlast hhead htail htiles => exact htiles.apart.imp .inl
  | wrapped hlast hlt hsize holder hnewer =>
    refine List.pairwise_append.mpr ⟨holder.apart.imp .inl, hnewer.apart.imp .inl, ?_⟩
    intro r hr r' hr'
    have := holder.mem hr
    have := hnewer.mem hr'
    exact .inr (by omega)

/-- After every run of safe allocations and of releases of records that `peek` shows, the
records are apart and in the buffer, `count` is their size, and `peek` shows the oldest. -/
theorem records_read_in_order (m size : Nat) (actions : List Op) (s : State)
    (hrun : Run (step m) (fun s op => Legal s op ∧ Safe m s op) ⟨.create size, []⟩ actions s) :
    s.records.Pairwise Record.Apart ∧ (∀ r ∈ s.records, r.start + r.size ≤ size) ∧
      s.buffer.count = total s.records ∧
      (s.buffer.count ≠ 0 → ∃ r rest seen, s.records = r :: rest ∧
        s.buffer.peek = some seen ∧ seen.start = r.start ∧ r.In seen) := by
  obtain ⟨h, hcount, rfl⟩ := counted_of_run hrun
  exact ⟨h.apart, fun r hr => h.mem hr, hcount, h.peek hcount⟩

instance (s : State) (op : Op) : Decidable (Legal s op) := by
  cases op <;> unfold Legal Record.In <;> infer_instance

instance (m : Nat) (b : Buffer) (newest : Option Record) (size : Nat) :
    Decidable (b.SafeFor m newest size) :=
  inferInstanceAs (Decidable (_ → _))

instance (m : Nat) (s : State) (op : Op) : Decidable (Safe m s op) := by
  cases op <;> unfold Safe <;> infer_instance

/-- The third record goes to the front, before the second one. -/
theorem records_read_in_order_wrapped :
    ∃ s, Run (step 100) (fun s op => Legal s op ∧ Safe 100 s op) ⟨.create 10, []⟩
        [.allocate 4, .allocate 4, .free 1, .allocate 3] s ∧
      ∃ r rest seen, s.records = r :: rest ∧ s.buffer.peek = some seen ∧
        seen.start = r.start ∧ r.In seen := by
  refine Run.exists_of_exec ⟨_, rfl, fun hrun => ?_⟩
  exact (records_read_in_order 100 10 _ _ hrun).2.2.2 (by decide)

/-- A record that wraps an empty buffer is not shown. -/
theorem record_not_shown :
    ∃ s, Run (step 100) Legal ⟨.create 10, []⟩ [.allocate 6, .free 1, .allocate 5] s ∧
      s.records = [⟨0, 5⟩] ∧ s.buffer.peek = some ⟨6, 0⟩ :=
  Run.exists_of_exec ⟨_, rfl, fun _ => ⟨rfl, rfl⟩⟩

end Rtems.Capture
