import Rtems.Models.Rfs.Bitmap.Elements

/-!
# The search for a clear bit

A search goes from a bit to an end bit in one direction. It finds a clear bit or sees
that all these bits are set, and it accesses elements of the bitmap only. This needs
that the pointer to the search element is in step with the bit under test when the
loop over a search element is left. It is not if the end bit is the first bit of an
element but not of a search element, and the search gets there.
-/

namespace Rtems.Rfs.Bitmap

/-- A bit is at or behind another one in the direction of a search. -/
def Ahead (direction a b : Int) : Prop := 0 ≤ direction * (b - a)

/-- The two directions of a search. -/
def IsDirection (direction : Int) : Prop := direction = 1 ∨ direction = -1

/-- The search ends at the first bit of an element which is not the first one of its
search element. -/
def EndsInside (direction endBit : Int) : Prop :=
  mapOffset endBit = firstOffset direction ∧
    mapOffset (mapIndex endBit) ≠ firstOffset direction

/-- The indices and offsets of a cursor are those of the bit under test. -/
structure Cursor.Aligned (cursor : Cursor) : Prop where
  mapIndex : cursor.mapIndex = Bitmap.mapIndex cursor.testBit
  mapOffset : cursor.mapOffset = Bitmap.mapOffset cursor.testBit
  searchIndex : cursor.searchIndex = Bitmap.mapIndex cursor.mapIndex
  searchOffset : cursor.searchOffset = Bitmap.mapOffset cursor.mapIndex

theorem aligned_startCursor (bit : Int) : (startCursor bit).Aligned := ⟨rfl, rfl, rfl, rfl⟩

variable {c : Control} {direction endBit : Int}
  {n : Nat} {size : Nat} {testBit : Int}

/-- The scan of an element finds a clear bit or all the bits of the element on the way
are set. -/
theorem scanMap_spec (hd : IsDirection direction) {index : Int} (testBit offset : Int)
    (h₀ : 0 ≤ offset) (h : offset < 32) (htest : testBit = index * 32 + offset)
    (hahead : Ahead direction testBit endBit)
    (hn : (if 0 < direction then 31 - offset else offset) + 1 < n) :
    (∃ x, scanMap (c.map index) direction endBit n testBit offset = some (some (x, mapOffset x)) ∧
      mapIndex x = index ∧ Ahead direction testBit x ∧ Ahead direction x endBit ∧ ¬ c.IsSet x) ∨
    scanMap (c.map index) direction endBit n testBit offset = some none ∧
      ∀ y, mapIndex y = index → Ahead direction testBit y → Ahead direction y endBit →
        c.IsSet y := by
  induction n generalizing testBit offset with
  | zero => split at hn <;> omega
  | succ n ih =>
    have hindex : mapIndex testBit = index := by
      unfold mapIndex
      omega
    have hoffset : mapOffset testBit = offset := by
      unfold mapOffset
      omega
    have hset : c.IsSet testBit ↔ test (c.map index) offset = true := by
      rw [Control.IsSet, hindex, hoffset]
    rw [scanMap, if_pos ⟨h₀, h⟩]
    by_cases hclear : test (c.map index) offset = false
    · left
      refine ⟨testBit, ?_, hindex, ?_, hahead, ?_⟩
      · rw [if_pos hclear, hoffset]
      · simp [Ahead]
      · rw [hset, hclear]
        decide
    · have hset : c.IsSet testBit := hset.mpr (by simpa using hclear)
      rw [if_neg hclear]
      by_cases hend : testBit = endBit
      · right
        refine ⟨if_pos hend, fun y _ hy hye => ?_⟩
        obtain rfl : y = testBit := by
          unfold Ahead at hy hye
          rcases hd with rfl | rfl <;> omega
        exact hset
      · rw [if_neg hend]
        have hnext : Ahead direction (testBit + direction) endBit := by
          unfold Ahead at hahead ⊢
          rcases hd with rfl | rfl <;> omega
        have hrest (y : Int) (hy : Ahead direction testBit y) (hne : y ≠ testBit) :
            Ahead direction (testBit + direction) y := by
          unfold Ahead at hy ⊢
          rcases hd with rfl | rfl <;> omega
        by_cases hrange : 0 ≤ offset + direction ∧ offset + direction < 32
        · rcases ih (testBit + direction) (offset + direction) hrange.1 hrange.2 (by omega) hnext
            (by rcases hd with rfl | rfl <;> simp at hn ⊢ <;> omega) with
            ⟨x, hscan, hx, hax, hxe, hxclear⟩ | ⟨hscan, hall⟩
          · left
            refine ⟨x, hscan, hx, ?_, hxe, hxclear⟩
            unfold Ahead at hax ⊢
            rcases hd with rfl | rfl <;> omega
          · right
            refine ⟨hscan, fun y hy hay hye => ?_⟩
            by_cases hyt : y = testBit
            · exact hyt ▸ hset
            · exact hall y hy (hrest y hay hyt) hye
        · right
          obtain ⟨m, rfl⟩ : ∃ m, n = m + 1 := ⟨n - 1, by
            rcases hd with rfl | rfl <;> simp at hn <;> omega⟩
          have hscan : scanMap (c.map index) direction endBit (m + 1) (testBit + direction)
              (offset + direction) = some none := by
            exact if_neg hrange
          refine ⟨hscan, fun y hy hay _ => ?_⟩
          obtain rfl : y = testBit := by
            unfold Ahead at hay
            unfold mapIndex at hy
            rcases hd with rfl | rfl <;> omega
          exact hset

/-- One bit was set and the search map is sound. -/
def Control.Takes (c c' : Control) (bit : Int) : Prop :=
  c'.Sound ∧ c'.size = c.size ∧ ∀ x, c'.IsSet x ↔ c.IsSet x ∨ x = bit

variable {cursor : Cursor}

theorem take_spec (h : c.Sound) (haligned : cursor.Aligned) {x : Int}
    (hx : mapIndex x = cursor.mapIndex) : c.Takes (take c cursor (mapOffset x)) x := by
  have hmap : (take c cursor (mapOffset x)).map = Function.update c.map (mapIndex x)
      (set (c.map (mapIndex x)) (bitAt (mapOffset x))) := by
    simp [take, hx]
  refine ⟨h.set rfl hmap ?_, rfl, isSet_iff_of_set hmap⟩
  simp only [take, hx, haligned.searchIndex, haligned.searchOffset, Function.update_self]

/-- The cursor after a search element: the bits behind it are set, and it is aligned if
the search goes on. -/
def Passed (c : Control) (direction endBit testBit : Int) (cursor : Cursor) : Prop :=
  (∀ y, Ahead direction testBit y → Ahead direction y endBit →
    ¬ Ahead direction cursor.testBit y → c.IsSet y) ∧
  (Ahead direction cursor.testBit endBit → cursor.Aligned ∧ cursor.testBit ≠ testBit ∧
    Ahead direction testBit cursor.testBit)

/-- A clear bit was found and set. -/
def Found (c : Control) (direction endBit testBit : Int) (c' : Control) (x : Int) : Prop :=
  Ahead direction testBit x ∧ Ahead direction x endBit ∧ ¬ c.IsSet x ∧ c.Takes c' x

/-- A search of an element finds a clear bit or passes the element. -/
def Visits (c : Control) (direction endBit testBit : Int)
    (result : Option (Search × List Access)) : Prop :=
  ∃ log, (∀ a ∈ log, a.Belongs c.size) ∧
    ((∃ c' x, result = some (.found c' x, log) ∧ Found c direction endBit testBit c' x) ∨
      ∃ cursor, result = some (.passed cursor, log) ∧
        Passed c direction endBit testBit (nextSearch direction cursor))

/-- If the end bit is the first one of an inner element, a clear bit comes before it. -/
def Stops (c : Control) (direction endBit testBit : Int) : Prop :=
  EndsInside direction endBit →
    ∃ y, Ahead direction testBit y ∧ Ahead direction y endBit ∧ y ≠ endBit ∧ ¬ c.IsSet y

theorem Cursor.Aligned.belongs (h : cursor.Aligned)
    (h₀ : 0 ≤ cursor.testBit) (hlt : cursor.testBit < size) :
    (Access.search cursor.searchIndex).Belongs size ∧
      (Access.map cursor.mapIndex).Belongs size := by
  simp only [Access.Belongs, elements, h.searchIndex, h.mapIndex, Bitmap.mapIndex]
  omega

@[simp] theorem firstOffset_one : firstOffset 1 = 0 := rfl

@[simp] theorem firstOffset_neg_one : firstOffset (-1) = 31 := rfl

/-- The next element of the same search element. -/
theorem aligned_nextElement (hd : IsDirection direction)
    (h : cursor.Aligned) (hrange : 0 ≤ cursor.searchOffset + direction ∧
      cursor.searchOffset + direction < 32) : (nextElement direction cursor).Aligned := by
  obtain ⟨hmap, -, hsearch, hoffset⟩ := h
  unfold Bitmap.mapIndex at hmap hsearch
  unfold Bitmap.mapOffset at hoffset
  rcases hd with rfl | rfl
  all_goals
    constructor <;> simp only [nextElement, firstOffset_one, firstOffset_neg_one, elementBits,
      Bitmap.mapIndex, Bitmap.mapOffset] <;> omega

/-- The first element of the next search element. -/
theorem aligned_nextSearch (hd : IsDirection direction)
    (h : cursor.Aligned) (hrange : ¬ (0 ≤ cursor.searchOffset + direction ∧
      cursor.searchOffset + direction < 32)) :
    (nextSearch direction (nextElement direction cursor)).Aligned := by
  obtain ⟨hmap, -, hsearch, hoffset⟩ := h
  unfold Bitmap.mapIndex at hmap hsearch
  unfold Bitmap.mapOffset at hoffset
  rcases hd with rfl | rfl
  all_goals
    constructor <;> simp only [nextSearch, nextElement, firstOffset_one, firstOffset_neg_one,
      elementBits, Bitmap.mapIndex, Bitmap.mapOffset] <;> omega

theorem skipElement_one (cursor : Cursor) :
    skipElement 1 cursor = { cursor with
      testBit := cursor.testBit / 32 * 32 + (32 - cursor.searchOffset) * 32
      mapOffset := 0
      mapIndex := cursor.mapIndex + (32 - cursor.searchOffset) } := by
  simp [skipElement, elementBits]

theorem skipElement_neg_one (cursor : Cursor) :
    skipElement (-1) cursor = { cursor with
      testBit := cursor.testBit / 32 * 32 - (cursor.searchOffset * 32 + 1)
      mapOffset := 31
      mapIndex := cursor.mapIndex - (cursor.searchOffset + 1) } := by
  simp [skipElement, elementBits]
  omega

section

variable (hd : IsDirection direction)
include hd

section

variable (h : cursor.Aligned)
include h

theorem aligned_skipElement : (nextSearch direction (skipElement direction cursor)).Aligned := by
  obtain ⟨hmap, -, hsearch, hoffset⟩ := h
  unfold Bitmap.mapIndex at hmap hsearch
  unfold Bitmap.mapOffset at hoffset
  rcases hd with rfl | rfl
  all_goals
    constructor <;> simp only [nextSearch, skipElement_one, skipElement_neg_one, firstOffset_one,
      firstOffset_neg_one, Bitmap.mapIndex, Bitmap.mapOffset] <;> omega

/-- The bits on the way that are behind the next element are those of this one. -/
theorem mapIndex_of_behind {y : Int} (hy : Ahead direction cursor.testBit y)
    (hbehind : ¬ Ahead direction (nextElement direction cursor).testBit y) :
    Bitmap.mapIndex y = cursor.mapIndex := by
  have hmap := h.mapIndex
  unfold Ahead at hy hbehind
  unfold Bitmap.mapIndex at hmap ⊢
  rcases hd with rfl | rfl
  all_goals
    simp only [nextElement, firstOffset_one, firstOffset_neg_one, elementBits] at hbehind
    omega

/-- The next element is ahead. -/
theorem ahead_nextElement :
    (nextElement direction cursor).testBit ≠ cursor.testBit ∧
      Ahead direction cursor.testBit (nextElement direction cursor).testBit := by
  have hmap := h.mapIndex
  unfold Ahead
  unfold Bitmap.mapIndex at hmap
  rcases hd with rfl | rfl
  all_goals
    simp only [nextElement, firstOffset_one, firstOffset_neg_one, elementBits]
    omega

/-- If the next element starts at the end bit, it is the first one of a search element
or the search ends inside of one. -/
theorem not_range_of_eq_endBit (hinside : ¬ EndsInside direction endBit)
    (heq : (nextElement direction cursor).testBit = endBit) :
    ¬ (0 ≤ cursor.searchOffset + direction ∧ cursor.searchOffset + direction < 32) := by
  obtain ⟨hmap, -, hsearch, hoffset⟩ := h
  subst heq
  unfold Bitmap.mapOffset at hoffset
  rcases hd with rfl | rfl
  all_goals
    simp only [EndsInside, nextElement, firstOffset_one, firstOffset_neg_one, elementBits,
      Bitmap.mapIndex, Bitmap.mapOffset] at hinside
    omega

end

theorem Ahead.trans {a b c : Int} (hab : Ahead direction a b)
    (hbc : Ahead direction b c) : Ahead direction a c := by
  unfold Ahead at *
  rcases hd with rfl | rfl <;> omega

variable {a b : Int}

theorem Ahead.antisymm (hab : Ahead direction a b) (hba : Ahead direction b a) : a = b := by
  unfold Ahead at *
  rcases hd with rfl | rfl <;> omega

theorem Ahead.of_not (h : ¬ Ahead direction a b) : Ahead direction b a := by
  unfold Ahead at *
  rcases hd with rfl | rfl <;> omega

theorem Ahead.bounds {a x b : Int}
    (hax : Ahead direction a x) (hxb : Ahead direction x b) (ha₀ : 0 ≤ a) (ha : a < size)
    (hb₀ : 0 ≤ b) (hb : b < size) : 0 ≤ x ∧ x < size := by
  unfold Ahead at *
  rcases hd with rfl | rfl <;> omega

/-- Bits that were passed before an element. -/
theorem Passed.of_behind
    (h : Passed c direction endBit b cursor) (hne : b ≠ a) (hab : Ahead direction a b)
    (hpassed : ∀ y, Ahead direction a y → Ahead direction y endBit → ¬ Ahead direction b y →
      c.IsSet y) : Passed c direction endBit a cursor := by
  refine ⟨fun y hay hye hbehind => ?_, fun hon => ?_⟩
  · by_cases hby : Ahead direction b y
    · exact h.1 y hby hye hbehind
    · exact hpassed y hay hye hby
  · obtain ⟨haligned, -, hb⟩ := h.2 hon
    refine ⟨haligned, ?_, hab.trans hd hb⟩
    rintro rfl
    exact hne (hb.antisymm hd hab)

end

theorem Stops.advance {a b : Int} (h : Stops c direction endBit a)
    (hpassed : ∀ y, Ahead direction a y → Ahead direction y endBit → ¬ Ahead direction b y →
      c.IsSet y) : Stops c direction endBit b := by
  intro hinside
  obtain ⟨y, hay, hye, hne, hclear⟩ := h hinside
  refine ⟨y, ?_, hye, hne, hclear⟩
  by_contra hbehind
  exact hclear (hpassed y hay hye hbehind)

section

variable (hd : IsDirection direction)
include hd

theorem leaves_iff :
    (direction < 0 ∧ testBit ≤ endBit) ∨ (0 < direction ∧ endBit ≤ testBit) ↔
      Ahead direction endBit testBit := by
  unfold Ahead
  rcases hd with rfl | rfl <;> omega

theorem goesOn_iff :
    (direction < 0 ∧ endBit ≤ testBit) ∨ (0 < direction ∧ testBit ≤ endBit) ↔
      Ahead direction testBit endBit := by
  unfold Ahead
  rcases hd with rfl | rfl <;> omega

variable {fuel : Nat} (hc : c.Sound) (hfuel : 33 ≤ fuel)
include hc hfuel

/-- The body finds a clear bit of the element or all its bits on the way are set. -/
theorem scanElement_spec (h : cursor.Aligned) (h₀ : 0 ≤ cursor.testBit)
    (hlt : cursor.testBit < c.size) (hahead : Ahead direction cursor.testBit endBit) :
    (∃ x, scanElement fuel c direction endBit cursor = some (some (x, mapOffset x)) ∧
      mapIndex x = cursor.mapIndex ∧ Ahead direction cursor.testBit x ∧
      Ahead direction x endBit ∧ ¬ c.IsSet x) ∨
    scanElement fuel c direction endBit cursor = some none ∧
      ∀ y, mapIndex y = cursor.mapIndex → Ahead direction cursor.testBit y →
        Ahead direction y endBit → c.IsSet y := by
  have hoffset : 0 ≤ cursor.mapOffset ∧ cursor.mapOffset < 32 := by
    rw [h.mapOffset]
    exact mapOffset_bounds _
  unfold scanElement
  cases htest : test (c.searchBits cursor.searchIndex) cursor.searchOffset with
  | false =>
    refine scanMap_spec hd cursor.testBit cursor.mapOffset hoffset.1 hoffset.2 ?_ hahead ?_
    · rw [h.mapIndex, h.mapOffset]
      unfold mapIndex mapOffset
      omega
    · split <;> omega
  | true =>
    right
    refine ⟨if_neg (by decide), fun y hy _ _ => ?_⟩
    obtain ⟨-, hmap₀, hmap⟩ := h.belongs h₀ hlt
    refine hc cursor.mapIndex hmap₀ hmap ?_ y hy
    rw [Control.Marks, ← h.searchIndex, ← h.searchOffset]
    exact htest

variable (hend₀ : 0 ≤ endBit) (hend : endBit < c.size)
include hend₀ hend

/-- The loop over a search element finds a clear bit or passes the element. -/
theorem searchElement_spec (cursor : Cursor)
    (h : cursor.Aligned) (h₀ : 0 ≤ cursor.testBit) (hlt : cursor.testBit < c.size)
    (hahead : Ahead direction cursor.testBit endBit)
    (hstops : Stops c direction endBit cursor.testBit)
    (hn : (if 0 < direction then 31 - cursor.searchOffset else cursor.searchOffset) + 1 < n)
    (accesses : List Access) (haccesses : ∀ a ∈ accesses, a.Belongs c.size) :
    Visits c direction endBit cursor.testBit
      (searchElement fuel c direction endBit n cursor accesses) := by
  induction n generalizing cursor accesses with
  | zero =>
    obtain ⟨-, -, -, hoffset⟩ := h
    unfold Bitmap.mapOffset at hoffset
    split at hn <;> omega
  | succ n ih =>
    obtain ⟨hsearch, hmap⟩ := h.belongs h₀ hlt
    have hoffset : 0 ≤ cursor.searchOffset ∧ cursor.searchOffset < 32 := by
      rw [h.searchOffset]
      exact mapOffset_bounds _
    have hbelongs : ∀ a ∈ scanAccesses c cursor ++ accesses, a.Belongs c.size := by
      unfold scanAccesses
      intro a ha
      rcases List.mem_append.mp ha with ha | ha
      · split at ha <;> simp at ha <;> rcases ha with rfl | rfl <;> assumption
      · exact haccesses a ha
    rw [searchElement]
    simp only [elementBits, hoffset, and_self, if_true]
    rcases scanElement_spec hd hc hfuel h h₀ hlt hahead with ⟨x, hscan, hx, hax, hxe, hclear⟩ |
      ⟨hscan, hall⟩
    · refine ⟨_, hbelongs, .inl ⟨_, x, ?_, hax, hxe, hclear, take_spec hc h hx⟩⟩
      simp only [hscan]
    simp only [hscan]
    have hpassed (y : Int) (hay : Ahead direction cursor.testBit y)
        (hye : Ahead direction y endBit)
        (hbehind : ¬ Ahead direction (nextElement direction cursor).testBit y) : c.IsSet y :=
      hall y (mapIndex_of_behind hd h hay hbehind) hay hye
    obtain ⟨hne, hnext⟩ := ahead_nextElement hd h
    by_cases hleave : Ahead direction endBit (nextElement direction cursor).testBit
    · refine ⟨_, hbelongs, .inr ⟨nextElement direction cursor, ?_, hpassed, fun hback => ?_⟩⟩
      · rw [if_pos ((leaves_iff hd).mpr hleave)]
      · have heq : (nextElement direction cursor).testBit = endBit := hback.antisymm hd hleave
        have hinside : ¬ EndsInside direction endBit := by
          intro hinside
          obtain ⟨y, hay, hye, hyne, hclear⟩ := hstops hinside
          refine hclear (hpassed y hay hye fun hbehind => hyne ?_)
          rw [heq] at hbehind
          exact hye.antisymm hd hbehind
        exact ⟨aligned_nextSearch hd h (not_range_of_eq_endBit hd h hinside heq), hne, hnext⟩
    · rw [if_neg (fun hl => hleave ((leaves_iff hd).mp hl))]
      have hon : Ahead direction (nextElement direction cursor).testBit endBit :=
        Ahead.of_not hd hleave
      obtain ⟨hnext₀, hnextlt⟩ := hnext.bounds hd hon h₀ hlt hend₀ hend
      by_cases hrange : 0 ≤ cursor.searchOffset + direction ∧ cursor.searchOffset + direction < 32
      · obtain ⟨log, hlog, hcases⟩ := ih (nextElement direction cursor)
          (aligned_nextElement hd h hrange) hnext₀ hnextlt hon (hstops.advance hpassed) (by
            rcases hd with rfl | rfl <;> simp [nextElement] at hn ⊢ <;> omega) _ hbelongs
        refine ⟨log, hlog, ?_⟩
        rcases hcases with ⟨c', x, hstep, hax, hrest⟩ | ⟨cursor', hstep, hcursor⟩
        · exact .inl ⟨c', x, hstep, hnext.trans hd hax, hrest⟩
        · exact .inr ⟨cursor', hstep, hcursor.of_behind hd hne hnext hpassed⟩
      · obtain ⟨m, rfl⟩ : ∃ m, n = m + 1 := ⟨n - 1, by
          rcases hd with rfl | rfl <;> simp at hn <;> omega⟩
        refine ⟨_, hbelongs, .inr ⟨nextElement direction cursor, ?_, hpassed, fun _ =>
          ⟨aligned_nextSearch hd h hrange, hne, hnext⟩⟩⟩
        exact if_neg hrange

omit hfuel in
/-- A full search element is passed. -/
theorem passed_skipElement (h : cursor.Aligned) (h₀ : 0 ≤ cursor.testBit)
    (hlt : cursor.testBit < c.size)
    (hmatch : isMatch (c.searchBits cursor.searchIndex) elementSet = true) :
    Passed c direction endBit cursor.testBit
      (nextSearch direction (skipElement direction cursor)) := by
  have hmap := h.mapIndex
  have hsearch := h.searchIndex
  have hoffset := h.searchOffset
  unfold mapIndex at hmap hsearch
  unfold mapOffset at hoffset
  refine ⟨fun y hay hye hbehind => ?_, fun _ => ⟨aligned_skipElement hd h, ?_⟩⟩
  · obtain ⟨hy₀, hy⟩ := hay.bounds hd hye h₀ hlt hend₀ hend
    refine hc (mapIndex y) (by unfold mapIndex; omega) (by unfold mapIndex elements; omega) ?_ y rfl
    have hindex : mapIndex (mapIndex y) = cursor.searchIndex := by
      unfold Ahead at hay hbehind
      unfold mapIndex
      rcases hd with rfl | rfl
      all_goals
        simp only [nextSearch, skipElement_one, skipElement_neg_one] at hbehind
        omega
    rw [Control.Marks, hindex]
    exact (isMatch_elementSet _).mp hmatch _ (mapOffset_bounds _).1 (mapOffset_bounds _).2
  · unfold Ahead
    rcases hd with rfl | rfl
    all_goals
      simp only [nextSearch, skipElement_one, skipElement_neg_one]
      omega

/-- The body of the search finds a clear bit or passes the search element. -/
theorem searchBody_spec (h : cursor.Aligned) (h₀ : 0 ≤ cursor.testBit)
    (hlt : cursor.testBit < c.size)
    (hahead : Ahead direction cursor.testBit endBit)
    (hstops : Stops c direction endBit cursor.testBit)
    (accesses : List Access) (haccesses : ∀ a ∈ accesses, a.Belongs c.size) :
    Visits c direction endBit cursor.testBit
      (searchBody fuel c direction endBit cursor accesses) := by
  have hbelongs : ∀ a ∈ Access.search cursor.searchIndex :: accesses, a.Belongs c.size :=
    List.forall_mem_cons.mpr ⟨(h.belongs h₀ hlt).1, haccesses⟩
  have hoffset : 0 ≤ cursor.searchOffset ∧ cursor.searchOffset < 32 := by
    rw [h.searchOffset]
    exact mapOffset_bounds _
  unfold searchBody
  cases hmatch : isMatch (c.searchBits cursor.searchIndex) elementSet with
  | false =>
    simp only [if_true]
    exact searchElement_spec hd hc hfuel hend₀ hend cursor h h₀ hlt hahead hstops
      (by split <;> omega) _ hbelongs
  | true =>
    refine ⟨_, hbelongs, .inr ⟨_, rfl, ?_⟩⟩
    exact passed_skipElement hd hc hend₀ hend h h₀ hlt hmatch

/-- A search finds a clear bit on its way or leaves the bitmap as it is. -/
theorem searchLoop_spec (cursor : Cursor)
    (h : cursor.Aligned) (h₀ : 0 ≤ cursor.testBit) (hlt : cursor.testBit < c.size)
    (hahead : Ahead direction cursor.testBit endBit)
    (hstops : Stops c direction endBit cursor.testBit)
    (hn : direction * (endBit - cursor.testBit) < n)
    (accesses : List Access) (haccesses : ∀ a ∈ accesses, a.Belongs c.size) :
    ∃ r, searchLoop fuel c direction endBit n cursor accesses = some r ∧
      (∀ a ∈ r.accesses, a.Belongs c.size) ∧
      ((∃ x, r.bit = some x ∧ Found c direction endBit cursor.testBit r.control x) ∨
        r.bit = none ∧ r.control = c ∧
          ∀ y, Ahead direction cursor.testBit y → Ahead direction y endBit → c.IsSet y) := by
  induction n generalizing cursor accesses with
  | zero =>
    unfold Ahead at hahead
    omega
  | succ n ih =>
    obtain ⟨log, hlog, hcases⟩ := searchBody_spec hd hc hfuel hend₀ hend h h₀ hlt hahead hstops
      accesses haccesses
    rw [searchLoop]
    rcases hcases with ⟨c', x, hbody, hfound⟩ | ⟨cursor', hbody, hpassed⟩
    · exact ⟨⟨c', some x, log⟩, by simp only [hbody], hlog, .inl ⟨x, rfl, hfound⟩⟩
    · simp only [hbody]
      by_cases hon : Ahead direction (nextSearch direction cursor').testBit endBit
      · rw [if_pos ((goesOn_iff hd).mpr hon)]
        obtain ⟨haligned, hne, hnext⟩ := hpassed.2 hon
        obtain ⟨hnext₀, hnextlt⟩ := hnext.bounds hd hon h₀ hlt hend₀ hend
        obtain ⟨r, hr, hbelongs, hcases⟩ := ih _ haligned hnext₀ hnextlt hon
          (hstops.advance hpassed.1) (by
            unfold Ahead at hnext
            rcases hd with rfl | rfl <;> omega) log hlog
        refine ⟨r, hr, hbelongs, ?_⟩
        rcases hcases with ⟨x, hx, hax, hrest⟩ | ⟨hnone, hcontrol, hall⟩
        · exact .inl ⟨x, hx, hnext.trans hd hax, hrest⟩
        · refine .inr ⟨hnone, hcontrol, fun y hay hye => ?_⟩
          by_cases hy : Ahead direction (nextSearch direction cursor').testBit y
          · exact hall y hy hye
          · exact hpassed.1 y hay hye hy
      · rw [if_neg (fun hg => hon ((goesOn_iff hd).mp hg))]
        refine ⟨_, rfl, hlog, .inr ⟨rfl, rfl, fun y hay hye => hpassed.1 y hay hye fun hy => ?_⟩⟩
        exact hon (hy.trans hd hye)

end

end Rtems.Rfs.Bitmap
