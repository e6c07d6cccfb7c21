import Rtems.Models.Rfs.Bitmap.State

/-!
# The bits of a bitmap

A bit of the map is described by whether it is set. The search map is sound if the
elements it marks are full. Opening a map, setting and clearing bits keep it sound.
-/

namespace Rtems.Rfs.Bitmap

open Function

theorem getLsbD_bitAt (offset : Int) {n : Nat} (hn : n < 32) :
    (bitAt offset).getLsbD n = decide (n = offset.toNat) := by
  rw [bitAt, BitVec.getLsbD_shiftLeft, BitVec.getLsbD_one]
  by_cases h : n = offset.toNat
  · simp [h, h ▸ hn]
  · simp only [h, hn, decide_true, Bool.true_and, decide_false]
    by_cases hlt : n < offset.toNat
    · simp [hlt]
    · have hsub : n - offset.toNat ≠ 0 := by omega
      simp [hlt, hsub]

variable {bit : Int}

/-- A bit of an element is set if it is zero. -/
theorem test_eq (t : Element) (h₀ : 0 ≤ bit) (h : bit < 32) :
    test t bit = !t.getLsbD bit.toNat := by
  have hn : bit.toNat < 32 := by omega
  have hzero : t &&& bitAt bit = 0 ↔ t.getLsbD bit.toNat = false := by
    constructor
    · intro heq
      have := congrArg (fun x : Element => x.getLsbD bit.toNat) heq
      simpa [getLsbD_bitAt bit hn] using this
    · intro hfalse
      refine BitVec.eq_of_getLsbD_eq fun i hi => ?_
      rw [BitVec.getLsbD_and, getLsbD_bitAt bit hi]
      by_cases heq : i = bit.toNat
      · simp [heq, hfalse]
      · simp [heq]
  rw [test]
  cases hb : t.getLsbD bit.toNat with
  | false => simpa using hzero.mpr hb
  | true =>
    have : ¬ (t &&& bitAt bit = 0) := fun heq => by simp [hzero.mp heq] at hb
    simpa using this

theorem test_set (t : Element) {bit b : Int} (h₀ : 0 ≤ b) (h : b < 32) (hbit : 0 ≤ bit) :
    test (set t (bitAt bit)) b = (decide (b = bit) || test t b) := by
  have hn : b.toNat < 32 := by omega
  have heq : b.toNat = bit.toNat ↔ b = bit := by omega
  rw [test_eq _ h₀ h, test_eq _ h₀ h, set, BitVec.getLsbD_and, BitVec.getLsbD_not,
    getLsbD_bitAt bit hn]
  simp only [heq]
  simp [hn, Bool.or_comm]

theorem test_clear (t : Element) {bit b : Int} (h₀ : 0 ≤ b) (h : b < 32) (hbit : 0 ≤ bit) :
    test (clear t (bitAt bit)) b = (decide (b ≠ bit) && test t b) := by
  have hn : b.toNat < 32 := by omega
  have heq : b.toNat = bit.toNat ↔ b = bit := by omega
  rw [test_eq _ h₀ h, test_eq _ h₀ h, clear, BitVec.getLsbD_or,
    getLsbD_bitAt bit hn]
  simp only [heq]
  simp [Bool.and_comm]

/-- An element matches the full one if all its bits are set. -/
theorem isMatch_elementSet (t : Element) :
    isMatch t elementSet = true ↔ ∀ b : Int, 0 ≤ b → b < 32 → test t b = true := by
  have hxor : t ^^^ elementSet = t := by simp [elementSet]
  rw [isMatch, hxor, beq_iff_eq]
  constructor
  · rintro rfl b h₀ h
    simp [test_eq _ h₀ h]
  · intro hall
    refine BitVec.eq_of_getLsbD_eq fun i hi => ?_
    have := hall i (by omega) (by omega)
    rw [test_eq _ (by omega) (by omega)] at this
    simpa using this

/-- A bit of the map is set. -/
def Control.IsSet (control : Control) (bit : Int) : Prop :=
  test (control.map (mapIndex bit)) (mapOffset bit) = true

/-- The search map marks an element as full. -/
def Control.Marks (control : Control) (index : Int) : Prop :=
  test (control.searchBits (mapIndex index)) (mapOffset index) = true

instance (control : Control) (bit : Int) : Decidable (control.IsSet bit) :=
  inferInstanceAs (Decidable (_ = _))

/-- The elements that the search map marks are full. -/
def Control.Sound (control : Control) : Prop :=
  ∀ index : Int, 0 ≤ index → index < elements control.size → control.Marks index →
    ∀ bit, mapIndex bit = index → control.IsSet bit

variable {c c' : Control}

theorem mapOffset_bounds (bit : Int) : 0 ≤ mapOffset bit ∧ mapOffset bit < 32 := by
  unfold mapOffset
  omega

theorem eq_of_mapIndex_mapOffset {a b : Int} (hindex : mapIndex a = mapIndex b)
    (hoffset : mapOffset a = mapOffset b) : a = b := by
  unfold mapIndex at hindex
  unfold mapOffset at hoffset
  omega

/-- What setting one bit of an element does to the map. -/
theorem isSet_iff_of_set (hmap : c'.map = update c.map (mapIndex bit)
      (set (c.map (mapIndex bit)) (bitAt (mapOffset bit)))) (x : Int) :
    c'.IsSet x ↔ c.IsSet x ∨ x = bit := by
  obtain ⟨h₀, h⟩ := mapOffset_bounds x
  rw [Control.IsSet, Control.IsSet, hmap]
  by_cases hindex : mapIndex x = mapIndex bit
  · have heq : mapOffset x = mapOffset bit ↔ x = bit :=
      ⟨eq_of_mapIndex_mapOffset hindex, fun h => h ▸ rfl⟩
    rw [hindex, update_self, test_set _ h₀ h (mapOffset_bounds bit).1]
    simp [heq, or_comm]
  · have hne : x ≠ bit := fun heq => hindex (heq ▸ rfl)
    rw [update_of_ne hindex]
    simp [hne]

/-- A full element may be marked when its last bit is set. -/
theorem Control.Sound.set (h : c.Sound) (hsize : c'.size = c.size)
    (hmap : c'.map = update c.map (mapIndex bit)
      (Bitmap.set (c.map (mapIndex bit)) (bitAt (mapOffset bit))))
    (hsearch : c'.searchBits = if isMatch (c'.map (mapIndex bit)) elementSet then
        update c.searchBits (mapIndex (mapIndex bit))
          (Bitmap.set (c.searchBits (mapIndex (mapIndex bit)))
            (bitAt (mapOffset (mapIndex bit))))
      else c.searchBits) : c'.Sound := by
  intro index h₀ hlt hmarks x hx
  obtain ⟨hoffset₀, hoffset⟩ := mapOffset_bounds x
  obtain ⟨hi₀, hi⟩ := mapOffset_bounds index
  by_cases hfull : isMatch (c'.map (mapIndex bit)) elementSet = true ∧ index = mapIndex bit
  · rw [Control.IsSet, hx, hfull.2]
    exact (isMatch_elementSet _).mp hfull.1 _ hoffset₀ hoffset
  · have hold : c.Marks index := by
      rw [Control.Marks, hsearch] at hmarks
      by_cases hmatch : isMatch (c'.map (mapIndex bit)) elementSet = true
      · rw [if_pos hmatch] at hmarks
        have hne : index ≠ mapIndex bit := fun heq => hfull ⟨hmatch, heq⟩
        by_cases hindex : mapIndex index = mapIndex (mapIndex bit)
        · have hoff : mapOffset index ≠ mapOffset (mapIndex bit) := fun heq =>
            hne (eq_of_mapIndex_mapOffset hindex heq)
          rw [hindex, update_self,
            test_set _ hi₀ hi (mapOffset_bounds (mapIndex bit)).1] at hmarks
          rw [Control.Marks, hindex]
          simpa [hoff] using hmarks
        · rwa [update_of_ne hindex] at hmarks
      · rwa [if_neg hmatch] at hmarks
    exact (isSet_iff_of_set hmap x).mpr (.inl (h index h₀ (hsize ▸ hlt) hold x hx))

/-- `rtems_rfs_bitmap_map_set` sets one bit and keeps the search map sound. -/
theorem mapSet_spec (h : c.Sound) (hset : mapSet c bit = some c') :
    c'.Sound ∧ c'.size = c.size ∧ ∀ x, c'.IsSet x ↔ c.IsSet x ∨ x = bit := by
  simp only [mapSet] at hset
  split at hset
  · simp at hset
  split at hset
  all_goals
    next hmatch =>
    obtain rfl := Option.some.inj hset
    refine ⟨h.set rfl rfl ?_, rfl, isSet_iff_of_set rfl⟩
    simp [hmatch]

/-- `rtems_rfs_bitmap_map_clear` clears one bit and keeps the search map sound. -/
theorem mapClear_spec (h : c.Sound) (hclear : mapClear c bit = some c') :
    c'.Sound ∧ c'.size = c.size ∧ ∀ x, c'.IsSet x ↔ c.IsSet x ∧ x ≠ bit := by
  simp only [mapClear] at hclear
  split at hclear
  · simp at hclear
  have hmap : c'.map = update c.map (mapIndex bit)
      (Bitmap.clear (c.map (mapIndex bit)) (bitAt (mapOffset bit))) := by
    rw [← Option.some.inj hclear]
  have hset (x : Int) : c'.IsSet x ↔ c.IsSet x ∧ x ≠ bit := by
    obtain ⟨h₀, h⟩ := mapOffset_bounds x
    rw [Control.IsSet, Control.IsSet, hmap]
    by_cases hindex : mapIndex x = mapIndex bit
    · have heq : mapOffset x = mapOffset bit ↔ x = bit :=
        ⟨eq_of_mapIndex_mapOffset hindex, fun h => h ▸ rfl⟩
      rw [hindex, update_self, test_clear _ h₀ h (mapOffset_bounds bit).1]
      simp [heq, and_comm]
    · have hne : x ≠ bit := fun heq => hindex (heq ▸ rfl)
      rw [update_of_ne hindex]
      simp [hne]
  have hsearch : c'.searchBits = update c.searchBits (mapIndex (mapIndex bit))
      (Bitmap.clear (c.searchBits (mapIndex (mapIndex bit)))
        (bitAt (mapOffset (mapIndex bit)))) := by
    rw [← Option.some.inj hclear]
  have hsize : c'.size = c.size := by rw [← Option.some.inj hclear]
  refine ⟨?_, hsize, hset⟩
  intro index h₀ hlt hmarks x hx
  obtain ⟨hi₀, hi⟩ := mapOffset_bounds index
  rw [Control.Marks, hsearch] at hmarks
  have hold : index ≠ mapIndex bit ∧ c.Marks index := by
    by_cases hindex : mapIndex index = mapIndex (mapIndex bit)
    · rw [hindex, update_self,
        test_clear _ hi₀ hi (mapOffset_bounds (mapIndex bit)).1] at hmarks
      simp only [ne_eq, decide_not, Bool.and_eq_true, Bool.not_eq_true', decide_eq_false_iff_not]
        at hmarks
      refine ⟨fun heq => hmarks.1 (heq ▸ rfl), ?_⟩
      rw [Control.Marks, hindex]
      exact hmarks.2
    · rw [update_of_ne hindex] at hmarks
      exact ⟨fun heq => hindex (heq ▸ rfl), hmarks⟩
  exact (hset x).mpr ⟨h index h₀ (hsize ▸ hlt) hold.2 x hx, fun heq => hold.1 (by rw [← hx, heq])⟩

/-- The loop clears the search elements it reaches and leaves the map alone. -/
theorem createLoop_spec (n size : Nat) (map searchMap : Int) (bit : Nat)
    (hn : size ≤ n) (hbit : bit < 32)
    (hclear : ∀ i, 0 ≤ i → i ≤ searchMap → c.searchBits i = elementClear) :
    (createLoop n size map searchMap bit c).size = c.size ∧
    (createLoop n size map searchMap bit c).map = c.map ∧
    ∀ i, 0 ≤ i → i ≤ searchMap + (bit + (size + 31) / 32 : Nat) / 32 →
      (createLoop n size map searchMap bit c).searchBits i = elementClear := by
  induction n generalizing size map searchMap bit c with
  | zero =>
    obtain rfl : size = 0 := by omega
    refine ⟨rfl, rfl, fun i hi₀ hi => hclear i hi₀ ?_⟩
    omega
  | succ n ih =>
    simp only [createLoop]
    split
    · next hsize =>
      refine ⟨rfl, rfl, fun i hi₀ hi => hclear i hi₀ ?_⟩
      omega
    · next hsize =>
      generalize hc₁ : (if isMatch _ elementSet = true then c else _) = c₁
      have hfields : c₁.size = c.size ∧ c₁.map = c.map ∧ c₁.searchBits = c.searchBits := by
        rw [← hc₁]
        split <;> split <;> exact ⟨rfl, rfl, rfl⟩
      generalize havailable : (if size < 32 then size else 32) = available
      have hle : (available = size ∧ size < 32) ∨ (available = 32 ∧ 32 ≤ size) := by
        rw [← havailable]
        split <;> omega
      split
      · have hclear' (i : Int) (hi₀ : 0 ≤ i) (hi : i ≤ searchMap + 1) :
            update c₁.searchBits (searchMap + 1) elementClear i = elementClear := by
          by_cases heq : i = searchMap + 1
          · simp [heq]
          · rw [update_of_ne heq, hfields.2.2]
            exact hclear i hi₀ (by omega)
        obtain ⟨hs, hm, hc⟩ := ih (c := { c₁ with
          searchBits := update c₁.searchBits (searchMap + 1) elementClear })
          (size - available) (map + 1) (searchMap + 1) 0 (by omega) (by decide) hclear'
        refine ⟨hs.trans hfields.1, hm.trans hfields.2.1, fun i hi₀ hi => hc i hi₀ ?_⟩
        omega
      · obtain ⟨hs, hm, hc⟩ := ih (c := c₁) (size - available) (map + 1) searchMap (bit + 1)
          (by omega) (by omega)
          (fun i hi₀ hi => (congrFun hfields.2.2 i).trans (hclear i hi₀ hi))
        refine ⟨hs.trans hfields.1, hm.trans hfields.2.1, fun i hi₀ hi => hc i hi₀ ?_⟩
        omega

/-- No element is marked after a bitmap was opened. -/
theorem bitmapOpen_spec (size : Nat) (map searchBits : Int → Element) (hsize : 1 ≤ size) :
    (bitmapOpen size map searchBits).Sound ∧ (bitmapOpen size map searchBits).size = size ∧
      (bitmapOpen size map searchBits).map = map := by
  obtain ⟨hs, hm, hc⟩ := createLoop_spec size size 0 0 0
    (c := ⟨size, 0, map, update searchBits 0 elementClear⟩) le_rfl
    (by decide) (by
      intro i hi₀ hi
      obtain rfl : i = 0 := by omega
      simp)
  refine ⟨?_, hs, hm⟩
  intro index h₀ hlt hmarks
  have hclear : (bitmapOpen size map searchBits).searchBits (mapIndex index) = elementClear := by
    refine hc _ (by unfold mapIndex; omega) ?_
    rw [show (bitmapOpen size map searchBits).size = size from hs] at hlt
    unfold elements at hlt
    unfold mapIndex
    omega
  obtain ⟨hi₀, hi⟩ := mapOffset_bounds index
  have hn : (mapOffset index).toNat < 32 := by omega
  rw [Control.Marks, hclear, test_eq _ hi₀ hi, elementClear, BitVec.getLsbD_allOnes,
    decide_eq_true hn] at hmarks
  simp at hmarks

end Rtems.Rfs.Bitmap
