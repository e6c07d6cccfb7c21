import Mathlib.Data.UInt

/-!
# Numbers in bytes

Numbers of a fixed width with the most significant byte first.
-/

namespace Rtems.Bytes

/-- The number that the bytes stand for. -/
def toNat (bytes : List UInt8) : Nat :=
  bytes.foldl (fun n b => n * 256 + b.toNat) 0

/-- The bytes of a number in a given width. -/
def ofNat : Nat → Nat → List UInt8
  | 0, _ => []
  | width + 1, n => ofNat width (n / 256) ++ [UInt8.ofNat n]

@[simp] theorem length_ofNat (width n : Nat) : (ofNat width n).length = width := by
  induction width generalizing n with
  | zero => rfl
  | succ width ih => rw [ofNat, List.length_append, ih, List.length_singleton]

/-- One more byte. -/
theorem toNat_concat (bytes : List UInt8) (b : UInt8) :
    toNat (bytes ++ [b]) = toNat bytes * 256 + b.toNat := by
  rw [toNat, List.foldl_append]
  rfl

/-- A number is read back up to its width. -/
theorem toNat_ofNat (width n : Nat) : toNat (ofNat width n) = n % 256 ^ width := by
  induction width generalizing n with
  | zero => rw [Nat.pow_zero, Nat.mod_one]; rfl
  | succ width ih =>
    have hbyte : (UInt8.ofNat n).toNat = n % 256 := UInt8.toNat_ofNat'
    rw [ofNat, toNat_concat, ih, hbyte, Nat.pow_succ', Nat.mod_mul, Nat.add_comm, Nat.mul_comm]

/-- A number is read back if it fits. -/
theorem toNat_ofNat_of_lt {width n : Nat} (h : n < 256 ^ width) : toNat (ofNat width n) = n := by
  rw [toNat_ofNat, Nat.mod_eq_of_lt h]

end Rtems.Bytes
