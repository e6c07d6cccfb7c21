import Rtems.Models.Pipe.Transfer

/-!
# What a call has moved

Where a call is and the pieces that it moved belong together: a write that waits knows how much it
has written, and a write of at most `Size` bytes has moved nothing before it moves everything.
-/

namespace Rtems.Pipe

/-- What a call returns: the number of bytes that it moved, and nothing positive for none. -/
structure Reports (n : Nat) (ret : Int) : Prop where
  /-- There are some bytes. -/
  moved : 0 < n → ret = n
  /-- There are none. -/
  nothing : n = 0 → ret ≤ 0

theorem reports_zero {ret : Int} (h : ret ≤ 0) : Reports 0 ret :=
  ⟨fun hpos => absurd hpos (lt_irrefl 0), fun _ => h⟩

theorem reports_pos {n : Nat} (h : 0 < n) : Reports n n :=
  ⟨fun _ => rfl, fun hzero => absurd hzero h.ne'⟩

theorem reports_result {n : Nat} {ret : Int} (h : ret ≤ 0) : Reports n (result n ret) := by
  rcases Nat.eq_zero_or_pos n with rfl | hpos
  · exact reports_zero h
  · rw [result_of_pos hpos]
    exact reports_pos hpos

/-- Where a read is and what it moved. -/
structure ReadCall (count : Nat) (phase : Phase) (pieces : List (List UInt8)) : Prop where
  /-- A read that waits has moved nothing. -/
  waiting : ∀ written chunk, phase = .waiting written chunk → pieces = [] ∧ written = 0
  /-- A read moves at most as much as it was asked for. -/
  le : pieces.flatten.length ≤ count
  /-- A read returns how much it moved, or nothing positive. -/
  returns : ∀ ret, phase = .done ret → Reports pieces.flatten.length ret

/-- Where a write is and what it moved. -/
structure WriteCall (size count : Nat) (data : Nat → UInt8) (phase : Phase)
    (pieces : List (List UInt8)) : Prop where
  /-- The number of bytes fits into an `int`. -/
  small : count < 2 ^ 31
  /-- The pieces are the beginning of the data. -/
  bytes : pieces.flatten = segment data 0 pieces.flatten.length
  /-- A write moves at most as much as it was asked for. -/
  le : pieces.flatten.length ≤ count
  /-- A write that waits knows what it moved and how much space it needs. -/
  waiting : ∀ written chunk, phase = .waiting written chunk →
    written = pieces.flatten.length ∧ pieces.flatten.length < count ∧
      (chunk = if count ≤ size then (count : Int) else 1) ∧ (count ≤ size → pieces = [])
  /-- A write returns how much it moved, or nothing positive. -/
  returns : ∀ ret, phase = .done ret → Reports pieces.flatten.length ret
  /-- A small write moves everything at once. -/
  whole : count ≤ size → pieces = [] ∨ pieces = [segment data 0 count]

/-- Where a call is and what it moved. -/
def CallFits (size : Nat) (op : Op) (phase : Phase) (pieces : List (List UInt8)) : Prop :=
  match op with
  | .read count _ => ReadCall count phase pieces
  | .write count _ data => WriteCall size count data phase pieces

theorem ReadCall.waits (count : Nat) (chunk : Int) : ReadCall count (.waiting 0 chunk) [] where
  waiting _ _ h := by
    cases h
    exact ⟨rfl, rfl⟩
  le := Nat.zero_le _
  returns _ h := by cases h

theorem ReadCall.ends (count : Nat) {ret : Int} (hret : ret ≤ 0) :
    ReadCall count (.done ret) [] where
  waiting _ _ h := by cases h
  le := Nat.zero_le _
  returns _ h := by
    cases h
    exact reports_zero hret

variable {pipe : Control}

/-- The read of a chunk. -/
theorem readChunk_call (hpipe : pipe.Sound) (count : Nat) :
    ReadCall count (readChunk pipe count).phase (readChunk pipe count).moved := by
  have hlen := readChunk_length hpipe count
  constructor
  · intro written chunk h
    cases h
  · rw [hlen]
    exact Nat.min_le_left ..
  · intro ret h
    rw [hlen]
    cases h
    exact reports_result le_rfl

section

variable {size count : Nat} {data : Nat → UInt8} {written chunk : Int} {pieces : List (List UInt8)}
  (h : WriteCall size count data (.waiting written chunk) pieces)
include h

theorem WriteCall.stop {ret : Int} (hret : ret ≤ 0) :
    WriteCall size count data (.done (result written ret)) pieces where
  __ := h
  waiting _ _ hphase := by cases hphase
  returns r hr := by
    cases hr
    rw [(h.waiting _ _ rfl).1]
    exact reports_result hret

end

/-- What a call does to the queue. -/
structure QueueEffect (op : Op) (pipe : Control) (effect : Effect) : Prop where
  /-- The size is kept. -/
  size : effect.pipe.size = pipe.size
  /-- The places stay in order. -/
  sound : effect.pipe.Sound
  /-- A read takes from the front, a write puts behind. -/
  queue : match op with
    | .read .. => pipe.queue = effect.moved.flatten ++ effect.pipe.queue
    | .write .. => effect.pipe.queue = pipe.queue ++ effect.moved.flatten

theorem QueueEffect.nothing (hpipe : pipe.Sound) (op : Op) (phase : Phase) :
    QueueEffect op pipe ⟨pipe, [], phase⟩ := by
  refine ⟨rfl, hpipe, ?_⟩
  cases op with
  | read count nodelay => rfl
  | write count nodelay data => exact (List.append_nil _).symm

/-- What a read does. -/
theorem readLocked_spec (hpipe : pipe.Sound) (count : Nat) (nodelay : Bool) :
    QueueEffect (.read count nodelay) pipe (readLocked pipe count nodelay) ∧
      ReadCall count (readLocked pipe count nodelay).phase
        (readLocked pipe count nodelay).moved := by
  unfold readLocked
  split
  · split
    · exact ⟨.nothing hpipe _ _, .ends _ le_rfl⟩
    · split
      · exact ⟨.nothing hpipe _ _, .ends _ (by decide)⟩
      · exact ⟨.nothing hpipe _ _, .waits _ _⟩
  · refine ⟨⟨rfl, readChunk_sound hpipe count, readChunk_queue hpipe count⟩, ?_⟩
    exact readChunk_call hpipe count

section Write

variable {w size count : Nat} {nodelay : Bool} {data : Nat → UInt8} {written chunk : Int}
  {pieces : List (List UInt8)}

/-- What a write moves when there is space. -/
theorem WriteCall.pass (h : WriteCall size count data (.waiting written chunk) pieces)
    {n : Nat} (hn : 0 < n) (hle : pieces.flatten.length + n ≤ count)
    (hwhole : count ≤ size → n = count) :
    WriteCall size count data
      (if pieces.flatten.length + n = count then .done count
        else stalled nodelay (pieces.flatten.length + n : Nat) 1)
      (pieces ++ [segment data pieces.flatten.length n]) := by
  obtain ⟨-, -, -, hfirst⟩ := h.waiting _ _ rfl
  have hlen : (pieces ++ [segment data pieces.flatten.length n]).flatten.length =
      pieces.flatten.length + n := by
    simp
  have hbytes : (pieces ++ [segment data pieces.flatten.length n]).flatten =
      segment data 0 (pieces.flatten.length + n) := by
    rw [List.flatten_append, List.flatten_singleton, ← segment_append, Nat.zero_add, ← h.bytes]
  have hat : count ≤ size → pieces ++ [segment data pieces.flatten.length n] =
      [segment data 0 count] := by
    intro hsmall
    rw [hfirst hsmall, hwhole hsmall]
    rfl
  have hbase : ∀ (phase : Phase),
      (∀ a b, phase = .waiting a b → a = (pieces.flatten.length + n : Nat) ∧
        pieces.flatten.length + n < count ∧ b = 1) →
      (∀ ret, phase = .done ret → ret = (pieces.flatten.length + n : Nat)) →
      WriteCall size count data phase
        (pieces ++ [segment data pieces.flatten.length n]) := by
    intro phase hwaits hdone
    refine ⟨h.small, by rw [hlen, hbytes], by rwa [hlen], ?_, ?_, fun hs => .inr (hat hs)⟩
    · intro a b hphase
      obtain ⟨ha, hlt, hb⟩ := hwaits a b hphase
      have hbig : ¬count ≤ size := by
        intro hsmall
        omega
      rw [hlen, if_neg hbig]
      exact ⟨ha, hlt, hb, fun hsmall => absurd hsmall hbig⟩
    · intro ret hphase
      rw [hlen, hdone ret hphase]
      exact reports_pos (by omega)
  apply hbase
  · intro a b hphase
    split at hphase
    · cases hphase
    · next hmore =>
      cases nodelay with
      | true => cases hphase
      | false =>
        cases hphase
        exact ⟨rfl, by omega, rfl⟩
  · intro ret hphase
    split at hphase
    · next hall =>
      cases hphase
      rw [hall]
    · cases nodelay with
      | true =>
        cases hphase
        exact result_of_pos (by omega)
      | false => cases hphase

/-- What the loop of a write does. -/
theorem writeLoop_spec (hw : 31 ≤ w) (hpipe : pipe.Sound)
    (h : WriteCall pipe.size count data (.waiting written chunk) pieces) :
    ∃ effect, writeLoop w count nodelay data count pipe written chunk = some effect ∧
      QueueEffect (.write count nodelay data) pipe effect ∧
      WriteCall pipe.size count data effect.phase (pieces ++ effect.moved) := by
  obtain ⟨hwritten, hlt, hchunk, hfirst⟩ := h.waiting _ _ rfl
  obtain ⟨need, hneed, hpos, hneed31⟩ : ∃ need : Nat, chunk = need ∧ 0 < need ∧ need < 2 ^ 31 := by
    have := h.small
    split at hchunk
    · exact ⟨count, hchunk, by omega, by omega⟩
    · exact ⟨1, hchunk, by omega, by omega⟩
  have hcount : count < 2 ^ w :=
    h.small.trans_le (Nat.pow_le_pow_right Nat.zero_lt_two hw)
  subst hwritten hneed
  by_cases hfull : pipe.space < need
  · refine ⟨_, writeLoop_full hcount hlt (by omega) hfull, .nothing hpipe _ _, ?_⟩
    rw [List.append_nil]
    cases nodelay with
    | true => exact h.stop (by decide)
    | false => exact h
  · have hspace : need ≤ pipe.space := Nat.le_of_not_lt hfull
    have hmin : min (count - pieces.flatten.length) pipe.space ≤ pipe.space :=
      Nat.min_le_right ..
    have hwhole : count ≤ pipe.size →
        min (count - pieces.flatten.length) pipe.space = count := by
      intro hsmall
      rw [hfirst hsmall, List.flatten_nil, List.length_nil]
      omega
    obtain ⟨fuel, rfl⟩ : ∃ fuel, count = fuel + 1 := ⟨count - 1, by omega⟩
    have hint : pieces.flatten.length +
        min (fuel + 1 - pieces.flatten.length) pipe.space < 2 ^ 31 := by
      have := h.small
      omega
    refine ⟨_, writeLoop_pass hcount hlt (by omega) hspace hint, ⟨rfl, ?_, ?_⟩, ?_⟩
    · exact hpipe.put _ hmin
    · show (pipe.put _ _).queue = _
      rw [Control.queue_put hpipe _ hmin, List.flatten_singleton]
    · exact h.pass (by omega) (by omega) hwhole

end Write

end Rtems.Pipe
