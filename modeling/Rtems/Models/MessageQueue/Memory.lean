import Mathlib.Data.BitVec

/-!
# The memory for message buffers

An initialized queue has one block of workspace memory with a header and the largest message,
rounded up to the pointer size, for each message that may be pending.
-/

namespace Rtems.MessageQueue

/-- The width of `size_t` and of a pointer. -/
inductive SizeWidth where
  | bits32
  | bits64
  deriving DecidableEq, Repr

/-- `SIZE_MAX + 1`. -/
def SizeWidth.range : SizeWidth → Nat
  | .bits32 => 2 ^ 32
  | .bits64 => 2 ^ 64

/-- `sizeof(uintptr_t)`. -/
def SizeWidth.pointer : SizeWidth → Nat
  | .bits32 => 4
  | .bits64 => 8

/-- The conversion to `long long`. -/
def longLong (n : Nat) : Int :=
  Int.bmod n (2 ^ 64)

/-- `size_t_mult32_with_overflow`. The comparison with `SIZE_MAX` is signed for a 32-bit
`size_t` and unsigned for a 64-bit one. -/
def sizeMultWithOverflow (width : SizeWidth) (a b : Nat) : Option Nat :=
  let x := longLong (a * b)
  match width with
  | .bits32 => if x > 2 ^ 32 - 1 then none else some (x % 2 ^ 32).toNat
  | .bits64 => if x % 2 ^ 64 > 2 ^ 64 - 1 then none else some (x % 2 ^ 64).toNat

/-- The message size rounded up to the pointer size; the addition wraps, and the mask clears
the low bits. -/
def alignedMessageSize (width : SizeWidth) (maximumMessageSize : Nat) : Nat :=
  (maximumMessageSize + (width.pointer - 1)) % width.range / width.pointer * width.pointer

/-- The memory part of `_CORE_message_queue_Initialize`, for a buffer header of `header` bytes:
the bytes that it got from the workspace, if it succeeds. -/
def initializeBuffers (width : SizeWidth) (header : Nat) (workspaceAllocate : Nat → Bool)
    (maximumPendingMessages maximumMessageSize : Nat) : Option Nat :=
  let aligned := alignedMessageSize width maximumMessageSize
  if aligned < maximumMessageSize then none
  else do
    let required ← sizeMultWithOverflow width maximumPendingMessages
      ((aligned + header) % width.range)
    if workspaceAllocate required then some required else none

/-- The size of one buffer in exact arithmetic. -/
def bufferSize (width : SizeWidth) (header maximumMessageSize : Nat) : Nat :=
  (maximumMessageSize + (width.pointer - 1)) / width.pointer * width.pointer + header

/-- The products that the multiplication refuses. -/
def SizeWidth.Refuses : SizeWidth → Nat → Prop
  | .bits32, product => 2 ^ 32 ≤ product ∧ product < 2 ^ 63
  | .bits64, _ => False

/-- The exact number of bytes fits into `size_t`, or the call is refused: rounding up wraps, or
the multiplication refuses the product with the size of a buffer as it was computed. -/
def Covered (width : SizeWidth) (header pending size : Nat) : Prop :=
  pending * bufferSize width header size < width.range ∨ width.range < size + width.pointer ∨
    width.Refuses (pending * (bufferSize width header size % width.range))

/-- A product from half of the range on is negative as a signed number. -/
theorem longLong_negative {n : Nat} (hge : 2 ^ 63 ≤ n) (hlt : n < 2 ^ 64) :
    longLong n = n - 2 ^ 64 := by
  unfold longLong
  rw [Int.bmod_def, if_neg (by omega)]
  omega

/-- A product is refused or reduced. -/
theorem sizeMultWithOverflow_eq {width : SizeWidth} {a b : Nat} (ha : a < 2 ^ 32)
    (hb : b < width.range) : (width.Refuses (a * b) ∧ sizeMultWithOverflow width a b = none) ∨
      (¬width.Refuses (a * b) ∧ sizeMultWithOverflow width a b = some (a * b % width.range)) := by
  unfold sizeMultWithOverflow
  cases width with
  | bits32 =>
    have hproduct : a * b < 2 ^ 64 :=
      calc a * b < 2 ^ 32 * 2 ^ 32 := Nat.mul_lt_mul'' ha hb
        _ = 2 ^ 64 := by decide
    generalize a * b = product at hproduct ⊢
    simp only [SizeWidth.Refuses, SizeWidth.range]
    by_cases hrange : product < 2 ^ 63
    · have hx : longLong product = product := Int.bmod_eq_of_le (by omega) (by omega)
      rw [hx]
      split
      · exact .inl ⟨by omega, rfl⟩
      · refine .inr ⟨by omega, congrArg some ?_⟩
        omega
    · rw [longLong_negative (by omega) hproduct, if_neg (by omega)]
      refine .inr ⟨by omega, congrArg some ?_⟩
      omega
  | bits64 =>
    have hx : longLong (a * b) % 2 ^ 64 = ((a * b : Nat) : Int) % 2 ^ 64 := Int.bmod_emod
    simp only [hx, SizeWidth.range]
    generalize a * b = product
    rw [if_neg (by omega)]
    refine .inr ⟨id, congrArg some ?_⟩
    omega

/-- The rounded size is refused or exact. -/
theorem alignedMessageSize_eq {width : SizeWidth} (header : Nat) {size : Nat}
    (hsize : size < width.range) :
    (width.range < size + width.pointer ∧ alignedMessageSize width size < size) ∨
      (size + width.pointer ≤ width.range ∧ size ≤ alignedMessageSize width size ∧
        alignedMessageSize width size + header = bufferSize width header size) := by
  cases width <;> simp only [alignedMessageSize, bufferSize, SizeWidth.pointer, SizeWidth.range]
    at hsize ⊢ <;> omega

/-- A queue that was initialized has the memory for all its messages, whatever the workspace
grants, if and only if the number of bytes is covered. -/
theorem initializeBuffers_enough {width : SizeWidth} {header pending size : Nat}
    (hpending : pending < 2 ^ 32) (hsize : size < width.range) :
    (∀ workspaceAllocate bytes,
        initializeBuffers width header workspaceAllocate pending size = some bytes →
        pending * bufferSize width header size ≤ bytes) ↔
      Covered width header pending size := by
  have hrange : 0 < width.range := Nat.zero_lt_of_lt hsize
  rcases alignedMessageSize_eq header hsize with ⟨hwrap, hless⟩ | ⟨hfits, hge, hexact⟩
  · refine iff_of_true ?_ (.inr (.inl hwrap))
    intro workspaceAllocate bytes h
    rw [initializeBuffers, if_pos hless] at h
    cases h
  · simp only [initializeBuffers, if_neg (Nat.not_lt.mpr hge), hexact]
    unfold Covered
    rcases sizeMultWithOverflow_eq hpending (Nat.mod_lt (bufferSize width header size) hrange) with
      ⟨hrefuses, hnone⟩ | ⟨haccepts, hsome⟩
    · refine iff_of_true ?_ (.inr (.inr hrefuses))
      intro workspaceAllocate bytes h
      rw [hnone] at h
      cases h
    · rw [hsome]
      constructor
      · intro hall
        left
        have henough := hall (fun _ => true) _ rfl
        exact henough.trans_lt (Nat.mod_lt _ hrange)
      · rintro (htotal | hwrap | hrefuses)
        · intro workspaceAllocate bytes h
          have hgranted : pending * (bufferSize width header size % width.range) % width.range =
              bytes := by
            simp only [Option.bind_eq_bind, Option.bind_some] at h
            split at h
            · exact Option.some.inj h
            · cases h
          rcases Nat.eq_zero_or_pos pending with rfl | hpos
          · rw [Nat.zero_mul]
            exact Nat.zero_le bytes
          · have hbuffer := (Nat.le_mul_of_pos_left _ hpos).trans_lt htotal
            rw [← hgranted, Nat.mod_eq_of_lt hbuffer, Nat.mod_eq_of_lt htotal]
        · omega
        · exact absurd hrefuses haccepts

/-- Ten messages of 13 bytes with a header of 20 bytes. -/
theorem initializeBuffers_enough_ten :
    initializeBuffers .bits32 20 (fun _ => true) 10 13 = some 360 ∧
      10 * bufferSize .bits32 20 13 ≤ 360 :=
  ⟨by decide, (initializeBuffers_enough (by decide) (by decide)).mpr (.inl (by decide))
    (fun _ => true) 360 (by decide)⟩

/-- One message of almost all of the address space gets four bytes, because the header is
added without a check. -/
theorem initializeBuffers_wraps :
    initializeBuffers .bits32 20 (fun _ => true) 1 (2 ^ 32 - 16) = some 4 ∧
      4 < 1 * bufferSize .bits32 20 (2 ^ 32 - 16) := by
  decide

end Rtems.MessageQueue
