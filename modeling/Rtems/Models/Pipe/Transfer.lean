import Mathlib.Order.Nat
import Rtems.Models.Pipe.State

/-!
# What a call does while it holds the lock

A read takes bytes from the front of the queue in the ring. A write puts
bytes behind the queue, at most once before it is done or finds no space.
-/

namespace Rtems.Pipe

/-- The bytes in the ring, oldest first. -/
def Control.queue (pipe : Control) : List UInt8 :=
  ring pipe.buffer pipe.size pipe.start pipe.length

/-- The places of the ring are in order. -/
structure Control.Sound (pipe : Control) : Prop where
  /-- `Start` is a place of the ring. -/
  start_lt : pipe.start < pipe.size
  /-- The queue fits into the ring. -/
  length_le : pipe.length ≤ pipe.size

@[simp] theorem Control.length_queue (pipe : Control) : pipe.queue.length = pipe.length :=
  length_ring ..

variable {n : Nat}

/-- An `int` keeps a small number. -/
theorem toInt_of_lt (h : n < 2 ^ 31) : toInt n = n := by
  unfold toInt
  omega

theorem toUnsigned_of_lt {w n : Nat} (h : n < 2 ^ w) : toUnsigned w n = n := by
  have hmod : (n : Int) % 2 ^ w = n := by
    apply Int.emod_eq_of_lt (by omega)
    exact_mod_cast h
  rw [toUnsigned, hmod, Int.toNat_natCast]

theorem result_of_pos {ret : Int} (h : 0 < n) : result n ret = n :=
  if_pos (by omega)

variable {pipe : Control}

/-- The pipe after bytes were put behind its queue. -/
def Control.put (pipe : Control) (bytes : Nat → UInt8) (n : Nat) : Control :=
  { pipe with
    buffer := ringPut pipe.buffer pipe.size pipe.wstart bytes n
    length := pipe.length + n }

theorem Control.space_put (pipe : Control) (bytes : Nat → UInt8) (n : Nat) :
    (pipe.put bytes n).space = pipe.space - n :=
  Nat.sub_add_eq ..

section

variable (hpipe : pipe.Sound)
include hpipe

/-- A read takes the front of the queue. -/
theorem readChunk_queue (count : Nat) :
    pipe.queue = (readChunk pipe count).moved.flatten ++ (readChunk pipe count).pipe.queue := by
  have hle : min count pipe.length ≤ pipe.length := Nat.min_le_right ..
  have hget : ringGet pipe.buffer pipe.size pipe.start (min count pipe.length) =
      ring pipe.buffer pipe.size pipe.start (min count pipe.length) :=
    ringGet_eq hpipe.start_lt (hle.trans hpipe.length_le)
  have hsplit := ring_append pipe.buffer pipe.size pipe.start (min count pipe.length)
    (pipe.length - min count pipe.length)
  rw [Nat.add_sub_cancel' hle] at hsplit
  simp only [readChunk, Control.queue, hget, List.flatten_cons, List.flatten_nil,
    List.append_nil, hsplit]
  congr 1
  split
  · next hempty => rw [hempty]; rfl
  · apply List.map_congr_left
    intro j _
    rw [Nat.mod_add_mod]

/-- A read keeps the places in order. -/
theorem readChunk_sound (count : Nat) :
    (readChunk pipe count).pipe.Sound := by
  have hpos : 0 < pipe.size := Nat.zero_lt_of_lt hpipe.start_lt
  constructor
  · simp only [readChunk]
    split
    · exact hpos
    · exact Nat.mod_lt _ hpos
  · exact (Nat.sub_le ..).trans hpipe.length_le

theorem readChunk_length (count : Nat) :
    (readChunk pipe count).moved.flatten.length = min count pipe.length := by
  have hle : min count pipe.length ≤ pipe.length := Nat.min_le_right ..
  simp only [readChunk, List.flatten_cons, List.flatten_nil, List.append_nil]
  rw [ringGet_eq hpipe.start_lt (hle.trans hpipe.length_le), length_ring]

theorem Control.queue_put (bytes : Nat → UInt8) (hn : n ≤ pipe.space) :
    (pipe.put bytes n).queue = pipe.queue ++ (List.range n).map bytes := by
  have hfit : pipe.length + n ≤ pipe.size := by
    have := hpipe.length_le
    unfold Control.space at hn
    omega
  exact ring_ringPut hpipe.start_lt hfit

theorem Control.Sound.put (bytes : Nat → UInt8)
    (hn : n ≤ pipe.space) : (pipe.put bytes n).Sound := by
  refine ⟨hpipe.start_lt, ?_⟩
  have := hpipe.length_le
  simp only [Control.space] at hn
  show pipe.length + n ≤ pipe.size
  omega

end

section Loop

variable {w count fuel m chunk : Nat} {nodelay : Bool} {data : Nat → UInt8}

/-- Where a write is that finds no space. -/
def stalled (nodelay : Bool) (written chunk : Int) : Phase :=
  if nodelay then .done (result written (-eagain)) else .waiting written chunk

theorem writeLoop_written (hcount : count < 2 ^ w) (written : 0 < count)
    (chunk : Int) :
    writeLoop w count nodelay data fuel pipe count chunk = some ⟨pipe, [], .done count⟩ := by
  have hend : ¬toUnsigned w count < count := by
    rw [toUnsigned_of_lt hcount]
    exact lt_irrefl _
  rw [writeLoop.eq_def]
  simp only [hend, if_false, result_of_pos written]

/-- The loop is left when there is no space. -/
theorem writeLoop_full (hcount : count < 2 ^ w) (hm : m < count)
    (hchunk : chunk < 2 ^ 32) (hfull : pipe.space < chunk) :
    writeLoop w count nodelay data fuel pipe m chunk =
      some ⟨pipe, [], stalled nodelay m chunk⟩ := by
  have hmore : toUnsigned w m < count := by
    rwa [toUnsigned_of_lt (hm.trans hcount)]
  have hspace : pipe.space < toUnsigned 32 chunk := by
    rwa [@toUnsigned_of_lt 32 chunk hchunk]
  rw [writeLoop.eq_def]
  simp only [hmore, hspace, if_true, stalled]
  cases nodelay <;> rfl

theorem lt_of_not_all {space : Nat} (hm : m < count) (h : m + min (count - m) space ≠ count) :
    m + min (count - m) space < count ∧ min (count - m) space = space := by
  omega

/-- A pass with space writes what fits, and then everything was written or the ring is full. -/
theorem writeLoop_pass (hcount : count < 2 ^ w) (hm : m < count)
    (hchunk : chunk < 2 ^ 32) (hspace : chunk ≤ pipe.space)
    (hint : m + min (count - m) pipe.space < 2 ^ 31) :
    writeLoop w count nodelay data (fuel + 1) pipe m chunk =
      some ⟨pipe.put (fun j => data (m + j)) (min (count - m) pipe.space),
        [(List.range (min (count - m) pipe.space)).map fun j => data (m + j)],
        if m + min (count - m) pipe.space = count then .done count
        else stalled nodelay (m + min (count - m) pipe.space : Nat) 1⟩ := by
  have hfits : ¬pipe.space < toUnsigned 32 chunk := by
    rw [@toUnsigned_of_lt 32 chunk hchunk]
    omega
  have hm' : toUnsigned w m = m := toUnsigned_of_lt (hm.trans hcount)
  have hrest : toUnsigned w ((count : Int) - m) = count - m := by
    rw [← Int.ofNat_sub hm.le]
    exact toUnsigned_of_lt ((Nat.sub_le ..).trans_lt hcount)
  have hnext : toInt ((m : Int) + (min (count - m) pipe.space : Nat)) =
      (m + min (count - m) pipe.space : Nat) := by
    exact toInt_of_lt hint
  rw [writeLoop.eq_def]
  simp only [hm', hm, if_true, hfits, if_false, hrest, hnext]
  by_cases hlast : m + min (count - m) pipe.space = count
  · have hpos : 0 < count := Nat.zero_lt_of_lt hm
    rw [if_pos hlast, hlast]
    exact congrArg (Option.map _) (writeLoop_written hcount hpos 1)
  · obtain ⟨hmore, hall⟩ := lt_of_not_all hm hlast
    have hnone : (pipe.put (fun j => data (m + j)) (min (count - m) pipe.space)).space < 1 := by
      rw [hall, Control.space_put, Nat.sub_self]
      exact Nat.one_pos
    have hstop := @writeLoop_full _ w count fuel _ 1 nodelay data hcount hmore
      (Nat.one_lt_two_pow (Nat.succ_ne_zero 31)) hnone
    rw [if_neg hlast]
    exact congrArg (Option.map _) hstop

end Loop

end Rtems.Pipe
