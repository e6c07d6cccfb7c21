import Mathlib.Data.BitVec
import Mathlib.Tactic.IntervalCases
import Mathlib.Tactic.Linarith

/-!
# Two-level priority bit map

The major word has one bit for each of the sixteen minor words; a minor word has
one bit for each of sixteen priorities. Bit numbers count from the most significant
end, so that the first set bit belongs to the numerically smallest priority. Each
scheduler node caches the masks of its priority.
-/

namespace Rtems.Scheduler

/-- `Priority_bit_map_Word`. -/
abbrev BitMapWord := BitVec 16

/-- `Priority_bit_map_Control`: the major word and the sixteen minor words. -/
structure BitMap where
  majorBitMap : BitMapWord
  bitMap : Nat → BitMapWord

/-- `Priority_bit_map_Information`: the minor slot and the cached masks of one node. -/
structure BitMapInformation where
  minor : Nat
  readyMajor : BitMapWord
  readyMinor : BitMapWord
  blockMajor : BitMapWord
  blockMinor : BitMapWord
  deriving DecidableEq

/-- `_Bitfield_Find_first_bit`: the number of leading zeros of a sixteen bit word. -/
def bitfieldFindFirstBit (value : BitMapWord) : Nat :=
  ((List.range 16).find? fun k => value.getMsbD k).getD 16

/-- `_Priority_Mask`. -/
def priorityMask (bitNumber : Nat) : BitMapWord := 0x8000#16 >>> bitNumber

/-- `_Priority_Bits_index` of the generic bit field code. -/
def priorityBitsIndex (bitNumber : Nat) : Nat := bitNumber

/-- `_Priority_Major`. -/
def priorityMajor (thePriority : Nat) : Nat := thePriority / 16

/-- `_Priority_Minor`. -/
def priorityMinor (thePriority : Nat) : Nat := thePriority % 16

namespace BitMap

/-- `_Priority_bit_map_Initialize`. -/
def initialized : BitMap := ⟨0, fun _ => 0⟩

/-- `_Priority_bit_map_Add`. -/
def add (m : BitMap) (info : BitMapInformation) : BitMap where
  majorBitMap := m.majorBitMap ||| info.readyMajor
  bitMap := Function.update m.bitMap info.minor (m.bitMap info.minor ||| info.readyMinor)

/-- `_Priority_bit_map_Remove`: the major bit goes only with the last minor bit. -/
def remove (m : BitMap) (info : BitMapInformation) : BitMap where
  bitMap := Function.update m.bitMap info.minor (m.bitMap info.minor &&& info.blockMinor)
  majorBitMap :=
    if m.bitMap info.minor &&& info.blockMinor = 0 then m.majorBitMap &&& info.blockMajor
    else m.majorBitMap

/-- `_Priority_bit_map_Get_highest`. -/
def getHighest (m : BitMap) : Nat :=
  let major := bitfieldFindFirstBit m.majorBitMap
  let minor := bitfieldFindFirstBit (m.bitMap major)
  (priorityBitsIndex major <<< 4) + priorityBitsIndex minor

/-- `_Priority_bit_map_Is_empty`. -/
def isEmpty (m : BitMap) : Bool := m.majorBitMap = 0

end BitMap

/-- `_Priority_bit_map_Initialize_information`. -/
def initializeInformation (newPriority : Nat) : BitMapInformation where
  minor := priorityBitsIndex (priorityMajor newPriority)
  readyMajor := priorityMask (priorityMajor newPriority)
  blockMajor := ~~~priorityMask (priorityMajor newPriority)
  readyMinor := priorityMask (priorityMinor newPriority)
  blockMinor := ~~~priorityMask (priorityMinor newPriority)

theorem getMsbD_priorityMask {k j : Nat} (hk : k < 16) (hj : j < 16) :
    (priorityMask k).getMsbD j = decide (j = k) := by
  interval_cases k <;> interval_cases j <;> rfl

theorem getMsbD_not_priorityMask {k j : Nat} (hk : k < 16) (hj : j < 16) :
    (~~~priorityMask k).getMsbD j = !decide (j = k) := by
  rw [BitVec.getMsbD_not, getMsbD_priorityMask hk hj]
  simp [hj]

theorem bitMapWord_eq_zero_iff (v : BitMapWord) : v = 0 ↔ ∀ j < 16, v.getMsbD j = false := by
  constructor
  · rintro rfl j _
    simp
  · intro h
    apply BitVec.eq_of_getMsbD_eq
    intro i hi
    simp [h i hi]

/-- The bit scan finds the first set bit of a word that is not zero. -/
theorem bitfieldFindFirstBit_spec {v : BitMapWord} (h : v ≠ 0) :
    bitfieldFindFirstBit v < 16 ∧ v.getMsbD (bitfieldFindFirstBit v) = true ∧
      ∀ j < bitfieldFindFirstBit v, v.getMsbD j = false := by
  unfold bitfieldFindFirstBit
  cases hf : (List.range 16).find? fun k => v.getMsbD k with
  | none =>
    rw [List.find?_eq_none] at hf
    refine absurd ((bitMapWord_eq_zero_iff v).mpr ?_) h
    intro j hj
    simpa using hf j (by simpa using hj)
  | some k =>
    obtain ⟨hk, hlt, hbefore⟩ := List.find?_range_eq_some.mp hf
    refine ⟨by simpa using hlt, hk, ?_⟩
    intro j hj
    simpa using hbefore j hj

/-- The bit of priority `p` in its minor word. -/
def BitMap.isSet (m : BitMap) (p : Nat) : Bool :=
  (m.bitMap (priorityMajor p)).getMsbD (priorityMinor p)

/-- The bit map describes the set `P` of priorities below 256: a minor bit is set
exactly for a member, and a major bit exactly when its minor word is not zero. -/
structure BitMap.Represents (m : BitMap) (P : Nat → Prop) : Prop where
  minor_iff : ∀ p < 256, m.isSet p = true ↔ P p
  major_iff : ∀ j < 16, m.majorBitMap.getMsbD j = true ↔ m.bitMap j ≠ 0

theorem BitMap.represents_initialized : BitMap.initialized.Represents fun _ => False where
  minor_iff p _ := by simp [isSet, initialized]
  major_iff j _ := by simp [initialized]

private theorem priorityMajor_lt {p : Nat} (hp : p < 256) : priorityMajor p < 16 := by
  unfold priorityMajor
  omega

private theorem priorityMinor_lt (p : Nat) : priorityMinor p < 16 := by
  unfold priorityMinor
  omega

private theorem priority_eq_iff (p q : Nat) :
    p = q ↔ priorityMajor p = priorityMajor q ∧ priorityMinor p = priorityMinor q := by
  unfold priorityMajor priorityMinor
  omega

theorem BitMap.isSet_add (m : BitMap) (p q : Nat) :
    (m.add (initializeInformation q)).isSet p = (m.isSet p || decide (p = q)) := by
  unfold BitMap.isSet BitMap.add initializeInformation priorityBitsIndex
  by_cases hmajor : priorityMajor p = priorityMajor q
  · simp only [hmajor, Function.update_self, BitVec.getMsbD_or,
      getMsbD_priorityMask (priorityMinor_lt q) (priorityMinor_lt p), priority_eq_iff p q, true_and]
  · have hne : p ≠ q := fun h => hmajor (h ▸ rfl)
    simp [hmajor, hne]

/-- Removing clears exactly the bit of the cached priority. -/
theorem BitMap.isSet_remove (m : BitMap) (p q : Nat) :
    (m.remove (initializeInformation q)).isSet p = (m.isSet p && !decide (p = q)) := by
  unfold BitMap.isSet BitMap.remove initializeInformation priorityBitsIndex
  by_cases hmajor : priorityMajor p = priorityMajor q
  · simp only [hmajor, Function.update_self, BitVec.getMsbD_and,
      getMsbD_not_priorityMask (priorityMinor_lt q) (priorityMinor_lt p), priority_eq_iff p q,
      true_and]
  · have hne : p ≠ q := fun h => hmajor (h ▸ rfl)
    simp [hmajor, hne]

variable {P : Nat → Prop} {m : BitMap}

/-- Adding a priority adds it to the described set. -/
theorem BitMap.Represents.add (h : m.Represents P) {q : Nat}
    (hq : q < 256) : (m.add (initializeInformation q)).Represents fun p => P p ∨ p = q where
  minor_iff p hp := by simp [BitMap.isSet_add, h.minor_iff p hp]
  major_iff j hj := by
    have hmask : (priorityMask (priorityMajor q)).getMsbD j = decide (j = priorityMajor q) :=
      getMsbD_priorityMask (priorityMajor_lt hq) hj
    simp only [BitMap.add, initializeInformation, priorityBitsIndex, BitVec.getMsbD_or,
      hmask]
    by_cases hjq : j = priorityMajor q
    · subst hjq
      have hne : m.bitMap (priorityMajor q) ||| priorityMask (priorityMinor q) ≠ 0 := by
        intro hz
        have hbit := (bitMapWord_eq_zero_iff _).mp hz _ (priorityMinor_lt q)
        simp [getMsbD_priorityMask (priorityMinor_lt q) (priorityMinor_lt q)] at hbit
      simpa using hne
    · simp [hjq, h.major_iff j hj]

private theorem BitMap.majorBitMap_remove (m : BitMap) (q : Nat) :
    (m.remove (initializeInformation q)).majorBitMap =
      if (m.remove (initializeInformation q)).bitMap (priorityMajor q) = 0 then
        m.majorBitMap &&& ~~~priorityMask (priorityMajor q) else m.majorBitMap := by
  have hword : (m.remove (initializeInformation q)).bitMap (priorityMajor q) =
      m.bitMap (priorityMajor q) &&& ~~~priorityMask (priorityMinor q) := Function.update_self ..
  by_cases hz : m.bitMap (priorityMajor q) &&& ~~~priorityMask (priorityMinor q) = 0
  · rw [if_pos (hword.trans hz)]
    exact if_pos hz
  · rw [if_neg (fun h => hz (hword.symm.trans h))]
    exact if_neg hz

/-- Removing a priority removes it from the described set. -/
theorem BitMap.Represents.remove (h : m.Represents P) {q : Nat}
    (hq : q < 256) : (m.remove (initializeInformation q)).Represents fun p => P p ∧ p ≠ q where
  minor_iff p hp := by simp [BitMap.isSet_remove, h.minor_iff p hp]
  major_iff j hj := by
    have hmask : (~~~priorityMask (priorityMajor q)).getMsbD j = !decide (j = priorityMajor q) :=
      getMsbD_not_priorityMask (priorityMajor_lt hq) hj
    rw [BitMap.majorBitMap_remove]
    by_cases hjq : j = priorityMajor q
    · subst hjq
      by_cases hz : (m.remove (initializeInformation q)).bitMap (priorityMajor q) = 0
      · rw [if_pos hz, BitVec.getMsbD_and, hmask]
        simp [hz]
      · rw [if_neg hz, h.major_iff _ hj]
        refine ⟨fun _ => hz, ?_⟩
        rintro - hm
        apply hz
        simp [BitMap.remove, initializeInformation, priorityBitsIndex, hm]
    · have hword : (m.remove (initializeInformation q)).bitMap j = m.bitMap j :=
        Function.update_of_ne hjq ..
      rw [hword, ← h.major_iff j hj]
      split
      · simp [BitVec.getMsbD_and, hmask, hjq]
      · rfl

/-- The highest priority found by the two bit scans is the least described one. -/
theorem BitMap.Represents.getHighest_isLeast
    (h : m.Represents P) {q : Nat} (hq : q < 256) (hP : P q) :
    P m.getHighest ∧ m.getHighest ≤ q := by
  have hqword : m.bitMap (priorityMajor q) ≠ 0 := by
    intro hz
    have hset := (h.minor_iff q hq).mpr hP
    rw [BitMap.isSet, hz] at hset
    simp at hset
  have hmajor : m.majorBitMap ≠ 0 := by
    intro hz
    have hbit := (h.major_iff _ (priorityMajor_lt hq)).mpr hqword
    simp [hz] at hbit
  obtain ⟨hi, hiset, hibefore⟩ := bitfieldFindFirstBit_spec hmajor
  have hiword := (h.major_iff _ hi).mp hiset
  obtain ⟨hj, hjset, hjbefore⟩ := bitfieldFindFirstBit_spec hiword
  have hval : m.getHighest = bitfieldFindFirstBit m.majorBitMap * 16 +
      bitfieldFindFirstBit (m.bitMap (bitfieldFindFirstBit m.majorBitMap)) := by
    simp [BitMap.getHighest, priorityBitsIndex, Nat.shiftLeft_eq]
  generalize bitfieldFindFirstBit m.majorBitMap = i at *
  generalize bitfieldFindFirstBit (m.bitMap i) = j at *
  have hmaj : priorityMajor m.getHighest = i := by rw [hval]; unfold priorityMajor; omega
  have hmin : priorityMinor m.getHighest = j := by rw [hval]; unfold priorityMinor; omega
  refine ⟨(h.minor_iff _ (by omega)).mp ?_, ?_⟩
  · rw [BitMap.isSet, hmaj, hmin]
    exact hjset
  · by_contra hlt
    have hmajle : i ≤ priorityMajor q := by
      by_contra hcon
      have hbit := (h.major_iff _ (priorityMajor_lt hq)).mpr hqword
      rw [hibefore _ (by omega)] at hbit
      simp at hbit
    have hmajeq : priorityMajor q = i := by
      unfold priorityMajor at hmajle ⊢
      omega
    have hminlt : priorityMinor q < j := by
      unfold priorityMajor at hmajeq
      unfold priorityMinor
      omega
    have hset := (h.minor_iff q hq).mpr hP
    rw [BitMap.isSet, hmajeq, hjbefore _ hminlt] at hset
    simp at hset

end Rtems.Scheduler
