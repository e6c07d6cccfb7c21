import Rtems.Models.Rfs.Bitmap.Search

/-!
# Allocation of a bit

An allocation searches windows above and below the seed in turn until it has seen the
whole map. Where no window is searched to an end inside of a search element, it finds a
clear bit if there is one, sets exactly this bit and stays inside the bitmap.
-/

namespace Rtems.Rfs.Bitmap

variable {c : Control}

/-- The ends of the windows of an allocation. A window that ends inside of a search
element has a clear bit before its end, or one of the windows before it has. -/
def SafeSeed (c : Control) (seed : Int) : Prop :=
  ∀ j : Nat,
    (seed + 2048 * j < c.size → EndsInside 1 (endBit c (seed + 2048 * j) 1) →
      ∃ y : Int, 0 ≤ y ∧ seed - 2048 * j ≤ y ∧ y < endBit c (seed + 2048 * j) 1 ∧ ¬ c.IsSet y) ∧
    (0 ≤ seed - 2048 * j → EndsInside (-1) (endBit c (seed - 2048 * j) (-1)) →
      ∃ y : Int, y < c.size ∧ y ≤ seed + 2048 * (j + 1) ∧ endBit c (seed - 2048 * j) (-1) < y ∧
        ¬ c.IsSet y)

variable {bit : Int} {direction : Int} {j : Nat}

theorem endBit_spec (hd : IsDirection direction) (h₀ : 0 ≤ bit)
    (h : bit < c.size) :
    0 ≤ endBit c bit direction ∧ endBit c bit direction < c.size ∧
      Ahead direction bit (endBit c bit direction) ∧
      direction * (endBit c bit direction - bit) ≤ 2048 := by
  unfold endBit Ahead searchWindow elementBits
  rcases hd with rfl | rfl <;> simp only <;> split <;> (try split) <;> omega

theorem endBit_one (h₀ : 0 ≤ bit) (h : bit < c.size) :
    endBit c bit 1 = min (bit + 2048) (c.size - 1) := by
  unfold endBit searchWindow elementBits
  simp only
  split
  · omega
  · split <;> omega

theorem endBit_neg_one (h₀ : 0 ≤ bit) (h : bit < c.size) :
    endBit c bit (-1) = max (bit - 2048) 0 := by
  unfold endBit searchWindow elementBits
  simp only
  split
  · omega
  · split <;> omega

/-- What an allocation leaves behind. -/
def Allocated (c : Control) (r : Result) : Prop :=
  (∀ a ∈ r.accesses, a.Belongs c.size) ∧
    ((∃ x : Int, r.bit = some x ∧ 0 ≤ x ∧ x < c.size ∧ ¬ c.IsSet x ∧ c.Takes r.control x) ∨
      r.bit = none ∧ r.control = c ∧ ∀ y : Int, 0 ≤ y → y < c.size → c.IsSet y)

/-- The windows that an allocation has searched. -/
def Searched (c : Control) (low high : Int) : Prop :=
  ∀ y : Int, 0 ≤ y → y < c.size → low ≤ y → y ≤ high → c.IsSet y

/-- What a search leaves behind: it takes a clear bit, or the bits that it saw are set. -/
def Ends (c : Control) (seen : Prop) (r : Result) : Prop :=
  (∀ a ∈ r.accesses, a.Belongs c.size) ∧
    ((∃ x : Int, r.bit = some x ∧ 0 ≤ x ∧ x < c.size ∧ ¬ c.IsSet x ∧ c.Takes r.control x) ∨
      r.bit = none ∧ r.control = c ∧ seen)

variable {accesses : List Access} {fuel : Nat} {seed : Int}

/-- One search of an allocation from a seed inside the map. -/
theorem searchFrom_spec (hd : IsDirection direction) (hc : c.Sound)
    (hfuel : 2049 ≤ fuel) (h₀ : 0 ≤ seed) (h : seed < c.size)
    (hstops : Stops c direction (endBit c seed direction) seed)
    (haccesses : ∀ a ∈ accesses, a.Belongs c.size) :
    ∃ r, searchFrom fuel ⟨c, none, accesses⟩ true seed direction = some r ∧
      Ends c (∀ y, Ahead direction seed y → Ahead direction y (endBit c seed direction) →
        c.IsSet y) r := by
  obtain ⟨hend₀, hend, hahead, hwindow⟩ := endBit_spec hd h₀ h
  have hfuel' : 33 ≤ fuel := by omega
  obtain ⟨r, hr, hbelongs, hcases⟩ := searchLoop_spec hd hc hfuel' hend₀ hend
    (n := fuel) (startCursor seed) (aligned_startCursor seed) h₀ h hahead hstops
    (by simp only [startCursor]; omega) accesses haccesses
  refine ⟨r, hr, hbelongs, ?_⟩
  rcases hcases with ⟨x, hx, hax, hxe, hclear, htakes⟩ | hnone
  · obtain ⟨hx₀, hxlt⟩ := hax.bounds hd hxe h₀ h hend₀ hend
    exact .inl ⟨x, hx, hx₀, hxlt, hclear, htakes⟩
  · exact .inr hnone

/-- The search above the seed in one iteration. -/
theorem searchUp_spec (hc : c.Sound) (hfuel : 2049 ≤ fuel) {seed upper : Int}
    (hseed₀ : 0 ≤ seed) (hsafe : SafeSeed c seed)
    (hupper : upper = seed + 2048 * j ∨ c.size ≤ upper ∧ c.size ≤ seed + 2048 * j)
    (hsearched : j ≠ 0 → Searched c (seed - 2048 * j) (seed + 2048 * j))
    (haccesses : ∀ a ∈ accesses, a.Belongs c.size) :
    ∃ r, searchFrom fuel ⟨c, none, accesses⟩ (upper < c.size) upper 1 = some r ∧
      Ends c (Searched c (seed + 2048 * j) (seed + 2048 * (j + 1))) r := by
  by_cases hlt : upper < c.size
  · obtain rfl : upper = seed + 2048 * j := by omega
    have hupper₀ : 0 ≤ seed + 2048 * (j : Int) := by omega
    have hend := endBit_one hupper₀ hlt
    have hstops : Stops c 1 (endBit c (seed + 2048 * j) 1) (seed + 2048 * j) := by
      intro hinside
      obtain ⟨y, hy₀, hlow, hy, hclear⟩ := (hsafe j).1 hlt hinside
      refine ⟨y, ?_, by unfold Ahead; omega, by omega, hclear⟩
      unfold Ahead
      by_contra hbehind
      have hj : j ≠ 0 := by
        omega
      exact hclear (hsearched hj y hy₀ (by omega) hlow (by omega))
    obtain ⟨r, hr, hbelongs, hcases⟩ :=
      searchFrom_spec (.inl rfl) hc hfuel hupper₀ hlt hstops haccesses
    refine ⟨r, by rwa [decide_eq_true hlt], hbelongs, hcases.imp_right ?_⟩
    rintro ⟨hbit, hcontrol, hall⟩
    refine ⟨hbit, hcontrol, fun y hy₀ hy hlow hhigh => hall y ?_ ?_⟩
    · unfold Ahead
      omega
    · rw [hend]
      unfold Ahead
      omega
  · refine ⟨_, by rw [decide_eq_false hlt]; rfl, haccesses, .inr ⟨rfl, rfl, ?_⟩⟩
    intro y _ hy hlow
    omega

/-- The search below the seed in one iteration. -/
theorem searchDown_spec (hc : c.Sound) (hfuel : 2049 ≤ fuel) {seed lower : Int}
    (hseed : seed < c.size) (hsafe : SafeSeed c seed)
    (hlower : lower = seed - 2048 * j ∨ lower < 0 ∧ seed - 2048 * j < 0)
    (hsearched : Searched c (seed - 2048 * j) (seed + 2048 * (j + 1)))
    (haccesses : ∀ a ∈ accesses, a.Belongs c.size) :
    ∃ r, searchFrom fuel ⟨c, none, accesses⟩ (0 ≤ lower) lower (-1) = some r ∧
      Ends c (Searched c (seed - 2048 * (j + 1)) (seed - 2048 * j)) r := by
  by_cases h₀ : 0 ≤ lower
  · obtain rfl : lower = seed - 2048 * j := by omega
    have hlt : seed - 2048 * (j : Int) < c.size := by omega
    have hend := endBit_neg_one h₀ hlt
    have hstops : Stops c (-1) (endBit c (seed - 2048 * j) (-1)) (seed - 2048 * j) := by
      intro hinside
      obtain ⟨y, hylt, hhigh, hy, hclear⟩ := (hsafe j).2 h₀ hinside
      refine ⟨y, ?_, by unfold Ahead; omega, by omega, hclear⟩
      unfold Ahead
      by_contra hbehind
      exact hclear (hsearched y (by omega) hylt (by omega) hhigh)
    obtain ⟨r, hr, hbelongs, hcases⟩ :=
      searchFrom_spec (.inr rfl) hc hfuel h₀ hlt hstops haccesses
    refine ⟨r, by rwa [decide_eq_true h₀], hbelongs, hcases.imp_right ?_⟩
    rintro ⟨hbit, hcontrol, hall⟩
    refine ⟨hbit, hcontrol, fun y hy₀ hy hlow hhigh => hall y ?_ ?_⟩
    · unfold Ahead
      omega
    · rw [hend]
      unfold Ahead
      omega
  · refine ⟨_, by rw [decide_eq_false h₀]; rfl, haccesses, .inr ⟨rfl, rfl, ?_⟩⟩
    intro y hy₀ _ _ hhigh
    omega

/-- The loop of an allocation. -/
theorem allocLoop_spec (hc : c.Sound) {fuel n : Nat} (hfuel : 2049 ≤ fuel)
    (hseed₀ : 0 ≤ seed) (hseed : seed < c.size) (hsafe : SafeSeed c seed) (upper lower : Int)
    (j : Nat) (hn : c.size + 1 < n + j) (hj : 2048 * j < c.size + 2048)
    (hupper : upper = seed + 2048 * j ∨ c.size ≤ upper ∧ c.size ≤ seed + 2048 * j)
    (hlower : lower = seed - 2048 * j ∨ lower < 0 ∧ seed - 2048 * j < 0)
    (hsearched : j ≠ 0 → Searched c (seed - 2048 * j) (seed + 2048 * j))
    (haccesses : ∀ a ∈ accesses, a.Belongs c.size) :
    ∃ r, allocLoop fuel n upper lower ⟨c, none, accesses⟩ = some r ∧ Allocated c r := by
  induction n generalizing upper lower j accesses with
  | zero => omega
  | succ n ih =>
    rw [allocLoop]
    dsimp only
    split
    · next hin =>
      obtain ⟨r₁, hr₁, hbelongs₁, hcases₁⟩ :=
        searchUp_spec hc hfuel hseed₀ hsafe hupper hsearched haccesses
      rw [hr₁, Option.bind_some]
      rcases hcases₁ with ⟨x, hx, hrest⟩ | ⟨hnone₁, hcontrol₁, hup⟩
      · exact ⟨r₁, by simp [hx], hbelongs₁, .inl ⟨x, hx, hrest⟩⟩
      obtain ⟨control₁, bit₁, accesses₁⟩ := r₁
      obtain rfl : control₁ = c := hcontrol₁
      obtain rfl : bit₁ = none := hnone₁
      have hsearched₁ : Searched control₁ (seed - 2048 * j) (seed + 2048 * (j + 1)) := by
        intro y hy₀ hy hlow hhigh
        by_cases habove : seed + 2048 * (j : Int) ≤ y
        · exact hup y hy₀ hy habove hhigh
        · refine hsearched ?_ y hy₀ hy hlow (by omega)
          omega
      obtain ⟨r₂, hr₂, hbelongs₂, hcases₂⟩ :=
        searchDown_spec hc hfuel hseed hsafe hlower hsearched₁ hbelongs₁
      simp only [Option.isSome_none, Bool.false_eq_true, if_false]
      rw [hr₂, Option.bind_some]
      rcases hcases₂ with ⟨x, hx, hrest⟩ | ⟨hnone₂, hcontrol₂, hdown⟩
      · exact ⟨r₂, by simp [hx], hbelongs₂, .inl ⟨x, hx, hrest⟩⟩
      obtain ⟨control₂, bit₂, accesses₂⟩ := r₂
      obtain rfl : control₂ = control₁ := hcontrol₂
      obtain rfl : bit₂ = none := hnone₂
      simp only [Option.isSome_none, Bool.false_eq_true, if_false]
      refine ih _ _ (j + 1) (by omega) (by omega) ?_ ?_ ?_ hbelongs₂
      · unfold searchWindow elementBits
        split <;> omega
      · unfold searchWindow elementBits
        split <;> omega
      · intro _ y hy₀ hy hlow hhigh
        by_cases hbelow : y < seed - 2048 * (j : Int)
        · exact hdown y hy₀ hy (by omega) (by omega)
        · exact hsearched₁ y hy₀ hy (by omega) (by omega)
    · next hout =>
      refine ⟨_, rfl, haccesses, .inr ⟨rfl, rfl, fun y hy₀ hy => ?_⟩⟩
      refine hsearched ?_ y hy₀ hy (by omega) (by omega)
      omega

theorem mapAlloc_spec (hc : c.Sound) (hseed₀ : 0 ≤ seed)
    (hseed : seed < c.size) (hsafe : SafeSeed c seed) (hfuel : c.size + 2049 ≤ fuel) :
    ∃ r, mapAlloc fuel c seed = some r ∧ Allocated c r := by
  refine allocLoop_spec hc (by omega) hseed₀ hseed hsafe seed seed 0 (by omega) (by omega)
    (.inl (by simp)) (.inl (by simp)) (fun h => absurd rfl h) (by simp)

/-- No window ends inside of a search element for these sizes and seeds. -/
theorem safeSeed_of_mod (hseed₀ : 0 ≤ seed) (hseed : seed < c.size)
    (hsize : c.size % 32 ≠ 1 ∨ c.size % 1024 = 1)
    (hup : c.size ≤ seed + 2048 ∨ seed % 32 ≠ 0 ∨ seed % 1024 = 0)
    (hdown : seed < 2048 ∨ seed % 32 ≠ 31 ∨ seed % 1024 = 1023) : SafeSeed c seed := by
  intro j
  constructor
  · intro hlt ⟨hoffset, hindex⟩
    have hend := endBit_one (by omega : 0 ≤ seed + 2048 * (j : Int)) hlt
    rw [firstOffset_one] at hoffset hindex
    unfold mapOffset at hoffset hindex
    unfold mapIndex at hindex
    omega
  · intro h₀ ⟨hoffset, hindex⟩
    have hend := endBit_neg_one h₀ (by omega : seed - 2048 * (j : Int) < c.size)
    rw [firstOffset_neg_one] at hoffset hindex
    unfold mapOffset at hoffset hindex
    unfold mapIndex at hindex
    omega

/-- Allocations start from a bit of the map and are safe. -/
def Safe (c : Control) : Op → Prop
  | .set _ => True
  | .clear _ => True
  | .alloc seed => 0 ≤ seed ∧ seed < c.size ∧ SafeSeed c seed

/-- A step of a sound bitmap. -/
theorem step_spec (hc : c.Sound) (hfuel : c.size + 2049 ≤ fuel) {op : Op}
    (hsafe : Safe c op) : ∃ c', step fuel c op = some c' ∧ c'.Sound ∧ c'.size = c.size := by
  cases op with
  | set bit =>
    cases hset : mapSet c bit with
    | none => exact ⟨c, by simp [step, hset], hc, rfl⟩
    | some c' =>
      obtain ⟨hsound, hsize, -⟩ := mapSet_spec hc hset
      exact ⟨c', by simp [step, hset], hsound, hsize⟩
  | clear bit =>
    cases hclear : mapClear c bit with
    | none => exact ⟨c, by simp [step, hclear], hc, rfl⟩
    | some c' =>
      obtain ⟨hsound, hsize, -⟩ := mapClear_spec hc hclear
      exact ⟨c', by simp [step, hclear], hsound, hsize⟩
  | alloc seed =>
    obtain ⟨hseed₀, hseed, hsafe⟩ := hsafe
    obtain ⟨r, hr, -, hcases⟩ := mapAlloc_spec hc hseed₀ hseed hsafe hfuel
    refine ⟨r.control, by simp [step, hr], ?_⟩
    rcases hcases with ⟨x, -, -, -, -, hsound, hsize, -⟩ | ⟨-, hcontrol, -⟩
    · exact ⟨hsound, hsize⟩
    · rw [hcontrol]
      exact ⟨hc, rfl⟩

/-- After every run of safe operations on an open bitmap, a safe allocation returns, stays
inside the bitmap, finds a bit if and only if one is clear, and sets exactly the bit it
returns. A window of the search ends at most 2048 bits behind the bitmap, so that up to the bound
on the size no position overflows an `int32_t`. -/
theorem bitmap_alloc_sound_complete {size : Nat} (hsize : 1 ≤ size)
    (_hpositions : size + 2048 ≤ 2 ^ 31) (map search : Int → Element)
    {fuel : Nat} (hfuel : size + 2049 ≤ fuel) {ops : List Op}
    (hrun : Run (step fuel) Safe (bitmapOpen size map search) ops c) {seed : Int}
    (hsafe : Safe c (.alloc seed)) :
    ∃ r, mapAlloc fuel c seed = some r ∧ (∀ a ∈ r.accesses, a.Belongs size) ∧
      (r.bit.isSome = true ↔ ∃ b : Int, 0 ≤ b ∧ b < size ∧ ¬ c.IsSet b) ∧
      (∀ x, r.bit = some x → 0 ≤ x ∧ x < size ∧ ¬ c.IsSet x ∧
        ∀ y, r.control.IsSet y ↔ c.IsSet y ∨ y = x) ∧
      (r.bit = none → r.control = c) := by
  obtain ⟨hopen, hopensize, -⟩ := bitmapOpen_spec size map search hsize
  obtain ⟨hc, hcsize⟩ : c.Sound ∧ c.size = size :=
    hrun.invariant (fun c => c.Sound ∧ c.size = size) ⟨hopen, hopensize⟩ (by
      intro c op c' ⟨hc, hcsize⟩ hop hstep
      obtain ⟨d, hd, hsound, hdsize⟩ := step_spec hc (hcsize ▸ hfuel) hop
      rw [hstep, Option.some_inj] at hd
      exact hd ▸ ⟨hsound, hdsize.trans hcsize⟩)
  obtain ⟨hseed₀, hseed, hsafe⟩ := hsafe
  obtain ⟨r, hr, hbelongs, hcases⟩ := mapAlloc_spec hc hseed₀ hseed hsafe (hcsize ▸ hfuel)
  rw [hcsize] at hbelongs
  refine ⟨r, hr, hbelongs, ?_⟩
  rcases hcases with ⟨x, hx, hx₀, hxlt, hclear, -, -, htakes⟩ | ⟨hnone, hcontrol, hall⟩
  · rw [hcsize] at hxlt
    refine ⟨⟨fun _ => ⟨x, hx₀, hxlt, hclear⟩, fun _ => by simp [hx]⟩, ?_, by simp [hx]⟩
    intro y hy
    obtain rfl : x = y := Option.some.inj (hx.symm.trans hy)
    exact ⟨hx₀, hxlt, hclear, htakes⟩
  · refine ⟨⟨fun hsome => by simp [hnone] at hsome, ?_⟩, by simp [hnone], fun _ => hcontrol⟩
    rintro ⟨b, hb₀, hb, hclear⟩
    exact absurd (hall b hb₀ (hcsize ▸ hb)) hclear

theorem bitmap_alloc_sound_complete_after_clear :
    ∃ c, Run (step 2100) Safe (bitmapOpen 40 (fun _ => 0) fun _ => 0) [.clear 20] c ∧
      ∃ r, mapAlloc 2100 c 3 = some r ∧ r.bit.isSome = true ∧
        ∀ a ∈ r.accesses, a.Belongs 40 := by
  have hrun : Run (step 2100) Safe (bitmapOpen 40 (fun _ => 0) fun _ => 0) [.clear 20] _ :=
    .snoc .nil trivial rfl
  have hsafe := safeSeed_of_mod (c := (mapClear (bitmapOpen 40 (fun _ => 0) fun _ => 0) 20).getD
    (bitmapOpen 40 (fun _ => 0) fun _ => 0)) (by decide : (0 : Int) ≤ 3) (by decide) (by decide)
    (by decide) (by decide)
  obtain ⟨r, hr, hbelongs, hiff, -⟩ := bitmap_alloc_sound_complete (by decide) (by decide)
    _ _ (by decide) hrun ⟨by decide, by decide, hsafe⟩
  exact ⟨_, hrun, r, hr, hiff.mpr ⟨20, by decide, by decide, by decide⟩, hbelongs⟩

/-- The bits 0 to 31 of a map of 33 bits are set and bit 32 is clear. The search reads
an element past the search map, finds it full and misses the clear bit. -/
theorem bitmap_alloc_misses_last_bit :
    ∃ r, mapAlloc 2100 (bitmapOpen 33 (fun i => if i = 0 then 0 else 1) fun _ => 0) 0 = some r ∧
      r.bit = none ∧
      ¬ (bitmapOpen 33 (fun i => if i = 0 then 0 else 1) fun _ => 0).IsSet 32 ∧
      Access.search 1 ∈ r.accesses ∧ ¬ (Access.search 1).Belongs 33 :=
  ⟨_, rfl, rfl, by decide, by decide, by decide⟩

end Rtems.Rfs.Bitmap
