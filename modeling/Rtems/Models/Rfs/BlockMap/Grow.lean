import Rtems.Models.Rfs.BlockMap.Layout

/-!
# Adding a block to a block map

Before a block number is written, a handle is attached to the table that takes it, which
may be new. Both levels of tables are made ready in the same way.
-/

namespace Rtems.Rfs.BlockMap

open Function Paged

variable {fs : FileSystem} {base : BlockNo → Bool} {s s' t : State} {l : Layout}
  {os : List BlockNo} {o o' : Outcomes} {h : Handle} {xs ys : List BlockNo}

/-- A handle is attached to the table that takes the next element of a list. -/
structure Ready (fs : FileSystem) (s : State) (h : Handle) (xs ys : List BlockNo) : Prop where
  mem : s.held h ∈ ys
  push : ∀ (x : BlockNo) (root : Nat → BlockNo) (table : BlockNo → Nat → BlockNo),
    (∀ y ∈ ys, ∀ i, ¬ (y = s.held h ∧ i = xs.length % fs.blocksPerBlock) →
      table y i = s.table y i) →
    table (s.held h) (xs.length % fs.blocksPerBlock) = x →
    Level inodeBlocks fs.blocksPerBlock root table (xs ++ [x]) ys

theorem Ready.write (hready : Ready fs s h xs ys) (x : BlockNo) (root : Nat → BlockNo) :
    Level inodeBlocks fs.blocksPerBlock root
      (setNumber s h (xs.length % fs.blocksPerBlock) x).table (xs ++ [x]) ys := by
  apply hready.push
  · intro y _ i hi
    rw [setNumber_table, if_neg hi]
  · rw [setNumber_table, if_pos ⟨rfl, rfl⟩]

section

variable (hlevel : Level inodeBlocks fs.blocksPerBlock s.blocks s.table xs ys)
include hlevel

/-- A table that took over the full inode is ready. -/
theorem Ready.spill
    (hn : xs.length = inodeBlocks) (hmoved : ∀ i < inodeBlocks, t.table (t.held h) i = s.blocks i) :
    Ready fs t h xs (ys ++ [t.held h]) where
  mem := List.mem_append_right _ List.mem_cons_self
  push x root table hkeep hx := by
    have hlt := inodeBlocks_lt fs
    rw [hn, Nat.mod_eq_of_lt hlt] at hkeep hx
    apply hlevel.push_spill hlt hn _ hx
    intro i hi
    rw [hkeep _ (List.mem_append_right _ List.mem_cons_self) i (by omega), hmoved i hi]

/-- A new table behind full ones is ready. -/
theorem Ready.page (hn : inodeBlocks < xs.length) (hmod : xs.length % fs.blocksPerBlock = 0)
    (hnew : t.held h ∉ ys) (hkept : ∀ y ∈ ys, t.table y = s.table y) :
    Ready fs t h xs (ys ++ [t.held h]) where
  mem := List.mem_append_right _ List.mem_cons_self
  push x root table hkeep hx := by
    rw [hmod] at hx
    apply hlevel.push_page (inodeBlocks_lt fs) hn hmod _ hx
    intro y hy
    funext i
    have hne : y ≠ t.held h := by
      rintro rfl
      exact hnew hy
    rw [hkeep y (List.mem_append_left _ hy) i (fun hi => hne hi.1), hkept y hy]

theorem Ready.entry (hn : inodeBlocks < xs.length) (hmod : xs.length % fs.blocksPerBlock ≠ 0)
    (hnodup : ys.Nodup) (hy : ys[xs.length / fs.blocksPerBlock]? = some (t.held h))
    (hkept : t.table = s.table) : Ready fs t h xs ys where
  mem := List.mem_of_getElem? hy
  push x root table hkeep hx := by
    apply hlevel.push_entry (inodeBlocks_lt fs) hn hmod hnodup hy _ hx
    rw [← hkept]
    exact hkeep

end

/-- What a new table leaves as it was. -/
structure Attached (s s' : State) (h : Handle) (newBlock : BlockNo) : Prop where
  held : s'.held h = newBlock
  other : ∀ h', h' ≠ h → s'.held h' = s.held h'
  size : s'.size = s.size
  bpos : s'.bpos = s.bpos
  table : ∀ y, y ≠ newBlock → s'.table y = s.table y

variable {r : Option BlockNo} {s₁ : State} {T : BlockNo} {ok : Bool}

/-- A table allocation fails without effect or attaches the handle to a new table, which
takes over the slots of the inode when upping. -/
theorem indirectAlloc_cases {upping : Bool} (hown : Owned fs base s os)
    (halloc : indirectAlloc fs s h upping o = (r, s', o')) :
    (r = none ∧ s' = s) ∨ ∃ newBlock, r = some newBlock ∧ Owned fs base s' (newBlock :: os) ∧
      Attached s s' h newBlock ∧
      (upping = true → ∀ i < inodeBlocks, s'.table newBlock i = s.blocks i) ∧
      (upping = false → s'.blocks = s.blocks) := by
  unfold indirectAlloc at halloc
  rcases hbit : groupBitmapAlloc fs s o with ⟨r₁, s₁, o₁⟩
  rw [hbit] at halloc
  rcases groupBitmapAlloc_cases hown hbit with ⟨rfl, rfl⟩ | ⟨b, rfl, -, -, rfl, hmark⟩
  · cases halloc
    exact .inl ⟨rfl, rfl⟩
  · refine .inr ⟨b, ?_⟩
    cases upping <;> cases h <;> cases halloc
    all_goals
      refine ⟨rfl, hmark.congr rfl rfl, ⟨rfl, ?_, rfl, rfl, ?_⟩, ?_, ?_⟩
      · rintro (_ | _) hne
        · first | rfl | exact absurd rfl hne
        · first | rfl | exact absurd rfl hne
      · intro y hy
        exact update_of_ne hy ..
      · intro hup i hi
        first | exact absurd hup (by decide) | simp [handleRequest, hi]
      · intro hup
        first | rfl | cases hup

/-- A new table is needed exactly if the list fills the inode or its tables. -/
theorem newTable_iff (fs : FileSystem) {n : Nat} (hn : inodeBlocks ≤ n) :
    (n % fs.blocksPerBlock = 0 ∨
        (n / fs.blocksPerBlock = 0 ∧ n % fs.blocksPerBlock = inodeBlocks)) ↔
      n = inodeBlocks ∨ (inodeBlocks < n ∧ n % fs.blocksPerBlock = 0) := by
  have hlt := inodeBlocks_lt fs
  constructor
  · rintro (hmod | ⟨hdiv, hmod⟩)
    · rcases Nat.lt_or_eq_of_le hn with hgt | rfl
      · exact .inr ⟨hgt, hmod⟩
      · exact .inl rfl
    · have := Nat.div_add_mod n fs.blocksPerBlock
      rw [hdiv, hmod, Nat.mul_zero, Nat.zero_add] at this
      exact .inl this.symm
  · rintro (rfl | ⟨-, hmod⟩)
    · exact .inr ⟨Nat.div_eq_of_lt hlt, Nat.mod_eq_of_lt hlt⟩
    · exact .inl hmod

/-- A handle is attached to the table for the next element of a list whose tables are in the
inode; a new table is owned and entered there. -/
structure Prepared (fs : FileSystem) (base : BlockNo → Bool) (s s' : State) (h : Handle)
    (os xs ys new : List BlockNo) : Prop where
  size : s'.size = s.size
  bpos : s'.bpos = s.bpos
  other : ∀ h', h' ≠ h → s'.held h' = s.held h'
  kept : ∀ y ∈ os, s'.table y = s.table y
  owned : Owned fs base s' (new ++ os)
  ready : Ready fs s' h xs (ys ++ new)
  rooted : ∀ i y, (ys ++ new)[i]? = some y → s'.blocks i = y

section Attach

variable {n : Nat} {upping : Bool}
  (hlevel : Level inodeBlocks fs.blocksPerBlock s.blocks s.table xs ys)
  (hroot : inodeBlocks < xs.length → ∀ i y, ys[i]? = some y → s.blocks i = y)
include hlevel hroot

/-- A new table is entered into the inode behind the others. -/
theorem rooted_setSlot (hcase : xs.length = inodeBlocks ∨
      (inodeBlocks < xs.length ∧ xs.length % fs.blocksPerBlock = 0))
    (hblocks : inodeBlocks < xs.length → s₁.blocks = s.blocks) (i : Nat) (y : BlockNo)
    (hy : (ys ++ [T])[i]? = some y) :
    (setSlot s₁ (xs.length / fs.blocksPerBlock) T).blocks i = y := by
  have hlt := inodeBlocks_lt fs
  rcases hcase with hn | ⟨hn, hmod⟩
  · obtain rfl := hlevel.pages_eq_nil hn.le
    obtain ⟨rfl, rfl⟩ : i = 0 ∧ y = T := by
      cases i <;> simp_all
    simp [setSlot, hn, Nat.div_eq_of_lt hlt]
  · have hlength : ys.length = xs.length / fs.blocksPerBlock := by
      rw [hlevel.pages, (pagesFor_of_mod_eq_zero hlt hn hmod).1]
    have hslots : (setSlot s₁ (xs.length / fs.blocksPerBlock) T).blocks =
        update s.blocks ys.length T := by
      rw [hlength, ← hblocks hn]
      rfl
    rw [hslots]
    rcases Nat.lt_or_ge i ys.length with hi | hi
    · rw [List.getElem?_append_left hi] at hy
      rw [update_of_ne hi.ne]
      exact hroot hn i y hy
    · obtain rfl : i = ys.length := by
        have := (List.getElem?_eq_some_iff.1 hy).1
        simp only [List.length_append, List.length_singleton] at this
        omega
      have hy' : T = y := by simpa using hy
      rw [update_self, hy']

/-- A new table that was attached is prepared once it is entered into the inode. -/
theorem Prepared.new (hsub : ys ⊆ os)
    (hcase : xs.length = inodeBlocks ∨
      (inodeBlocks < xs.length ∧ xs.length % fs.blocksPerBlock = 0))
    (hown : Owned fs base s₁ (T :: os)) (hatt : Attached s s₁ h T)
    (hup : xs.length = inodeBlocks → ∀ i < inodeBlocks, s₁.table T i = s.blocks i)
    (hkeep : inodeBlocks < xs.length → s₁.blocks = s.blocks) :
    Prepared fs base s (setSlot s₁ (xs.length / fs.blocksPerBlock) T) h os xs ys [T] := by
  have hos : ∀ y ∈ os, y ≠ T := by
    rintro y hy rfl
    exact (List.nodup_cons.1 hown.nodup).1 hy
  have hrooted : ∀ i y, (ys ++ [T])[i]? = some y →
      (setSlot s₁ (xs.length / fs.blocksPerBlock) T).blocks i = y :=
    rooted_setSlot hlevel hroot hcase hkeep
  obtain ⟨t, ht⟩ := @exists_eq _ (setSlot s₁ (xs.length / fs.blocksPerBlock) T)
  rw [← ht] at hrooted ⊢
  have hheld : t.held h = T := ht ▸ (by cases h <;> exact hatt.held)
  have hkept : ∀ y ∈ os, t.table y = s.table y := fun y hy => ht ▸ hatt.table y (hos y hy)
  have hready : Ready fs t h xs (ys ++ [T]) := by
    rcases hcase with hn | ⟨hn, hmod⟩
    · rw [← hheld]
      apply Ready.spill hlevel hn
      rw [hheld, ht]
      exact hup hn
    · rw [← hheld]
      apply Ready.page hlevel hn hmod _ fun y hy => hkept y (hsub hy)
      rw [hheld]
      exact fun hT => hos T (hsub hT) rfl
  refine ⟨ht ▸ hatt.size, ht ▸ hatt.bpos, ?_, hkept, hown.congr (ht ▸ rfl) (ht ▸ rfl), hready,
    hrooted⟩
  intro h' hne
  rw [← hatt.other h' hne, ht]
  cases h' <;> rfl

/-- The last table is prepared once the handle is attached to it. -/
theorem Prepared.last (hown : Owned fs base s os) (hnodup : ys.Nodup)
    (hn : inodeBlocks < xs.length) (hmod : xs.length % fs.blocksPerBlock ≠ 0) :
    Prepared fs base s (handleRequest s h (s.blocks (xs.length / fs.blocksPerBlock))) h os xs ys
      [] := by
  have hlength := (pagesFor_of_mod_ne_zero (inodeBlocks_lt fs) hn hmod).1
  rw [← hlevel.pages] at hlength
  obtain ⟨y, hy⟩ : ∃ y, ys[xs.length / fs.blocksPerBlock]? = some y :=
    ⟨_, List.getElem?_eq_getElem (by omega)⟩
  obtain ⟨t, ht⟩ := @exists_eq _ (handleRequest s h (s.blocks (xs.length / fs.blocksPerBlock)))
  have hheld : t.held h = y := by
    rw [ht, ← hroot hn _ y hy]
    cases h <;> rfl
  have hsame : t.table = s.table ∧ t.blocks = s.blocks ∧ t.marked = s.marked ∧
      t.freedTwice = s.freedTwice ∧ t.size = s.size ∧ t.bpos = s.bpos := by
    rw [ht]
    cases h <;> exact ⟨rfl, rfl, rfl, rfl, rfl, rfl⟩
  obtain ⟨htable, hblocks, hmarked, hfreed, hsize, hbpos⟩ := hsame
  rw [← ht]
  refine ⟨hsize, hbpos, ?_, fun y _ => by rw [htable], ?_, ?_, ?_⟩
  · intro h' hne
    rw [ht]
    cases h <;> cases h' <;> first | rfl | exact absurd rfl hne
  · exact hown.congr hmarked hfreed
  · rw [List.append_nil]
    exact Ready.entry hlevel hn hmod hnodup (hheld ▸ hy) htable
  · rw [List.append_nil, hblocks]
    exact hroot hn

/-- The table for the next element is attached, or nothing changes. -/
theorem attachTable_cases (hown : Owned fs base s os) (hsub : ys ⊆ os)
    (hnodup : ys.Nodup) (hlo : inodeBlocks ≤ n) (hn : xs.length = n)
    (hupping : upping = true ↔ n = inodeBlocks)
    (hattach : attachTable fs s h n upping o = (ok, s', o')) :
    (ok = false ∧ s' = s) ∨ (ok = true ∧ ∃ new, Prepared fs base s s' h os xs ys new) := by
  subst hn
  unfold attachTable at hattach
  simp only [newTable_iff fs hlo] at hattach
  split at hattach
  · rename_i hcase
    rcases halloc : indirectAlloc fs s h upping o with ⟨r, s₁, o₁⟩
    rw [halloc] at hattach
    rcases indirectAlloc_cases hown halloc with ⟨rfl, rfl⟩ | ⟨T, rfl, hown₁, hatt, hup, hkeep⟩
    · cases hattach
      exact .inl ⟨rfl, rfl⟩
    cases hattach
    refine .inr ⟨rfl, [T], .new hlevel hroot hsub hcase hown₁ hatt ?_ ?_⟩
    · intro hn
      exact hup (hupping.2 hn)
    · intro hn
      apply hkeep
      cases hu : upping with
      | false => rfl
      | true => exact absurd (hupping.1 hu) hn.ne'
  · rename_i hcase
    cases hattach
    have hn : inodeBlocks < xs.length := by omega
    have hmod : xs.length % fs.blocksPerBlock ≠ 0 := by tauto
    exact .inr ⟨rfl, [], .last hlevel hroot hown hnodup hn hmod⟩

end Attach

/-- What a failed preparation leaves as it was. -/
structure Unharmed (fs : FileSystem) (base : BlockNo → Bool) (s s' : State)
    (os : List BlockNo) : Prop where
  size : s'.size = s.size
  bpos : s'.bpos = s.bpos
  blocks : s'.blocks = s.blocks
  table : ∀ y ∈ os, s'.table y = s.table y
  owned : Owned fs base s' os

/-- The tables of a map are ready for the next block, with the new tables they need. -/
structure Extended (fs : FileSystem) (base : BlockNo → Bool) (s s' : State) (os : List BlockNo)
    (l : Layout) (sing doub : List BlockNo) : Prop where
  size : s'.size = s.size
  bpos : s'.bpos = s.bpos
  owned : Owned fs base s' (doub ++ (sing ++ os))
  ready : Ready fs s' .singly l.data (l.sing ++ sing)
  singLevel : Level inodeBlocks fs.blocksPerBlock s'.blocks s'.table (l.sing ++ sing)
    (l.doub ++ doub)
  rooted : ∀ i x, (l.doub ++ doub)[i]? = some x → s'.blocks i = x

section Extend

variable (hloc : Located fs s l) (hown : Owned fs base s os) (hsub : l.blocks ⊆ os)
  (hnodup : l.blocks.Nodup)
include hloc hown hsub hnodup

/-- A singly indirect map is made ready, or nothing changes. -/
theorem growSingly_cases (hlo : inodeBlocks ≤ l.data.length)
    (hhi : l.data.length < fs.blocksPerBlock * inodeBlocks)
    (hgrow : growSingly fs s o = (ok, s', o')) :
    (ok = false ∧ Unharmed fs base s s' os) ∨
      (ok = true ∧ ∃ sing doub, Extended fs base s s' os l sing doub) := by
  have hlt := inodeBlocks_lt fs
  have hpages : l.sing.length ≤ inodeBlocks := by
    rw [hloc.dataLevel.pages, pagesFor_le_iff hlt (by decide)]
    omega
  have hdoub : l.doub = [] := hloc.singLevel.pages_eq_nil hpages
  have hsing : l.sing ⊆ os := fun y hy => hsub (by simp [Layout.blocks, hy])
  have hsingNodup : l.sing.Nodup := by
    rw [Layout.blocks, hdoub, List.append_nil] at hnodup
    exact (List.nodup_append.1 hnodup).2.1
  rcases attachTable_cases hloc.dataLevel (fun _ => hloc.singLevel.fits hpages) hown hsing
    hsingNodup (hloc.count ▸ hlo) hloc.count.symm (by simp) hgrow with
    ⟨rfl, rfl⟩ | ⟨rfl, new, hprep⟩
  · exact .inl ⟨rfl, rfl, rfl, rfl, fun _ _ => rfl, hown⟩
  · refine .inr ⟨rfl, new, [], hprep.size, hprep.bpos, hprep.owned, hprep.ready, ?_, ?_⟩
    · have hlength := (hprep.ready.write 0 s'.blocks).pages
      have hnext : (l.data ++ [0]).length = l.data.length + 1 := by simp
      rw [hnext] at hlength
      rw [hdoub, List.append_nil]
      apply Level.of_root _ hprep.rooted
      rw [hlength, pagesFor_le_iff hlt (by decide)]
      exact hhi
    · simp [hdoub]

/-- A doubly indirect map whose last table is full gets a new table, or nothing changes. -/
theorem growDoubly_new (hsingly : fs.blockMapSinglyBlocks = fs.blocksPerBlock * inodeBlocks)
    (hlo : fs.blocksPerBlock * inodeBlocks ≤ l.data.length)
    (hmod : l.data.length % fs.blocksPerBlock = 0)
    (hgrow : growDoubly fs s o = (ok, s', o')) :
    (ok = false ∧ Unharmed fs base s s' os) ∨
      (ok = true ∧ ∃ sing doub, Extended fs base s s' os l sing doub) := by
  have hlt := inodeBlocks_lt fs
  have hn : inodeBlocks < l.data.length := (inodeBlocks_lt_mul fs).trans_le hlo
  have hlength : l.sing.length = l.data.length / fs.blocksPerBlock := by
    rw [hloc.dataLevel.pages, (pagesFor_of_mod_eq_zero hlt hn hmod).1]
  have hfull : inodeBlocks ≤ l.sing.length := by
    rw [hlength, Nat.le_div_iff_mul_le (by omega), Nat.mul_comm]
    exact hlo
  have hupping : (l.data.length == fs.blockMapSinglyBlocks) = true ↔
      l.sing.length = inodeBlocks := by
    rw [beq_iff_eq, hsingly, hlength]
    constructor
    · intro heq
      rw [heq, Nat.mul_div_cancel_left _ (by omega)]
    · intro heq
      rw [← heq, Nat.mul_div_cancel' (Nat.dvd_of_mod_eq_zero hmod)]
  unfold growDoubly at hgrow
  simp only [hloc.count, hmod, if_true] at hgrow
  rcases halloc : indirectAlloc fs s .singly false o with ⟨r, s₁, o₁⟩
  rw [halloc] at hgrow
  rcases indirectAlloc_cases hown halloc with ⟨rfl, rfl⟩ | ⟨T, rfl, hown₁, hatt, -, hkeep⟩
  · cases hgrow
    exact .inl ⟨rfl, rfl, rfl, rfl, fun _ _ => rfl, hown⟩
  have hblocks := hkeep rfl
  have hos : ∀ y ∈ os, y ≠ T := by
    rintro y hy rfl
    exact (List.nodup_cons.1 hown₁.nodup).1 hy
  have hsing : l.sing ⊆ os := fun y hy => hsub (by simp [Layout.blocks, hy])
  have hdoub : l.doub ⊆ os := fun y hy => hsub (by simp [Layout.blocks, hy])
  have hlevel : Level inodeBlocks fs.blocksPerBlock s₁.blocks s₁.table l.sing l.doub :=
    hloc.singLevel.congr (fun _ _ _ => by rw [hblocks]) fun y hy =>
      hatt.table y (hos y (hdoub hy))
  have hroot : inodeBlocks < l.sing.length → ∀ i y, l.doub[i]? = some y → s₁.blocks i = y := by
    intro _
    rw [hblocks]
    exact hloc.rooted
  rcases htable : growTable fs s₁ o₁ with ⟨ok₂, s₂, o₂⟩
  simp only [htable] at hgrow
  rw [growTable, hatt.size, hloc.count] at htable
  rcases attachTable_cases hlevel hroot hown₁ (fun y hy => List.mem_cons_of_mem _ (hdoub hy))
    (List.nodup_append.1 hnodup).2.1 (hlength ▸ hfull) hlength (hlength ▸ hupping) htable with
    ⟨rfl, rfl⟩ | ⟨rfl, doub, hprep⟩
  · cases hgrow
    exact .inl ⟨rfl, hatt.size, hatt.bpos, hblocks, fun y hy => hatt.table y (hos y hy),
      hown₁.free⟩
  · cases hgrow
    have hne : ∀ y ∈ l.sing, y ≠ s₂.held .doubly := by
      rintro y hy rfl
      rcases List.mem_append.1 hprep.ready.mem with hmem | hmem
      · exact (List.nodup_append.1 hnodup).2.2 _ (List.mem_append_right _ hy) _ hmem rfl
      · exact (List.nodup_append.1 hprep.owned.nodup).2.2 _ hmem _
          (List.mem_cons_of_mem _ (hsing hy)) rfl
    have hheld : (setNumber s₂ .doubly
        (l.data.length / fs.blocksPerBlock % fs.blocksPerBlock) T).held .singly = T :=
      (hprep.other .singly (by decide)).trans hatt.held
    refine .inr ⟨rfl, [T], doub, hprep.size.trans hatt.size, hprep.bpos.trans hatt.bpos,
      hprep.owned.congr rfl rfl, ?_, ?_, hprep.rooted⟩
    · have hready := Ready.page (h := .singly) (t := setNumber s₂ .doubly
        (l.data.length / fs.blocksPerBlock % fs.blocksPerBlock) T) hloc.dataLevel hn hmod
        (by rw [hheld]; exact fun hT => hos T (hsing hT) rfl) (by
          intro y hy
          funext i
          rw [setNumber_table, if_neg (fun h => hne y hy h.1),
            hprep.kept y (List.mem_cons_of_mem _ (hsing hy)), hatt.table y (hos y (hsing hy))])
      rwa [hheld] at hready
    · rw [← hlength]
      exact hprep.ready.write T s₂.blocks

omit hsub in
/-- A doubly indirect map with room in its last table is made ready. -/
theorem growDoubly_last (hlo : fs.blocksPerBlock * inodeBlocks ≤ l.data.length)
    (hmod : l.data.length % fs.blocksPerBlock ≠ 0)
    (hgrow : growDoubly fs s o = (ok, s', o')) :
    ok = true ∧ Extended fs base s s' os l [] [] := by
  have hlt := inodeBlocks_lt fs
  have hn : inodeBlocks < l.data.length := (inodeBlocks_lt_mul fs).trans_le hlo
  have hlength : l.sing.length = l.data.length / fs.blocksPerBlock + 1 := by
    rw [hloc.dataLevel.pages, (pagesFor_of_mod_ne_zero hlt hn hmod).1]
  have hfull : inodeBlocks < l.sing.length := by
    have : inodeBlocks ≤ l.data.length / fs.blocksPerBlock := by
      rw [Nat.le_div_iff_mul_le (by omega), Nat.mul_comm]
      exact hlo
    omega
  obtain ⟨y, hy⟩ : ∃ y, l.sing[l.data.length / fs.blocksPerBlock]? = some y :=
    ⟨_, List.getElem?_eq_getElem (by omega)⟩
  obtain ⟨z, hz, hzy⟩ := hloc.singLevel.paged hfull _ y hy
  unfold growDoubly at hgrow
  simp only [hloc.count, hmod, if_false] at hgrow
  cases hgrow
  have hheld : (handleRequest (handleRequest s .doubly (s.blocks
      (l.data.length / fs.blocksPerBlock / fs.blocksPerBlock))) .singly
      (getNumber (handleRequest s .doubly (s.blocks
        (l.data.length / fs.blocksPerBlock / fs.blocksPerBlock))) .doubly
        (l.data.length / fs.blocksPerBlock % fs.blocksPerBlock))).held .singly = y := by
    rw [hloc.rooted _ z hz]
    exact hzy
  refine ⟨rfl, rfl, rfl, hown.congr rfl rfl, ?_, ?_, ?_⟩
  · rw [List.append_nil]
    have hsingNodup := (List.nodup_append.1 (List.nodup_append.1 hnodup).1).2.1
    exact Ready.entry hloc.dataLevel hn hmod hsingNodup (hheld ▸ hy) rfl
  · rw [List.append_nil, List.append_nil]
    exact hloc.singLevel
  · rw [List.append_nil]
    exact hloc.rooted

end Extend

/-- The blocks of a layout are located and owned. -/
structure Represents (fs : FileSystem) (base : BlockNo → Bool) (s : State) (l : Layout) :
    Prop where
  located : Located fs s l
  owned : Owned fs base s l.blocks

variable {block : BlockNo}

/-- A failed preparation keeps the layout. -/
theorem Unharmed.represents (hun : Unharmed fs base s s' (block :: l.blocks))
    (hloc : Located fs s l) : Represents fs base (groupBitmapFree s' block) l := by
  have htable : ∀ y ∈ l.blocks, s'.table y = s.table y := fun y hy =>
    hun.table y (List.mem_cons_of_mem _ hy)
  refine ⟨⟨?_, ?_, ?_, ?_⟩, hun.owned.free⟩
  · exact (congrArg BlockSize.count hun.size).trans hloc.count
  · exact hloc.dataLevel.congr (fun _ _ _ => congrFun hun.blocks _) fun y hy =>
      htable y (by simp [Layout.blocks, hy])
  · exact hloc.singLevel.congr (fun _ _ _ => congrFun hun.blocks _) fun y hy =>
      htable y (by simp [Layout.blocks, hy])
  · intro i x hx
    exact (congrFun hun.blocks i).trans (hloc.rooted i x hx)

/-- A block written into the table made ready for it extends the layout. -/
theorem Extended.represents {sing doub : List BlockNo}
    (hext : Extended fs base s s' (block :: l.blocks) l sing doub) (hloc : Located fs s l) :
    Represents fs base
      (countBlock (setNumber s' .singly (s'.size.count % fs.blocksPerBlock) block) block)
      ⟨l.data ++ [block], l.sing ++ sing, l.doub ++ doub⟩ := by
  have hcount : s'.size.count = l.data.length :=
    (congrArg BlockSize.count hext.size).trans hloc.count
  have hperm : (doub ++ (sing ++ block :: l.blocks)).Perm
      (l.data ++ [block] ++ (l.sing ++ sing) ++ (l.doub ++ doub)) := by
    rw [List.perm_iff_count]
    intro b
    simp only [Layout.blocks, List.count_append, List.count_cons, List.count_nil]
    omega
  have hown := hext.owned.perm hperm
  have hheld : ∀ y ∈ l.doub ++ doub, y ≠ s'.held .singly := by
    rintro y hy rfl
    exact (List.nodup_append.1 hown.nodup).2.2 _ (List.mem_append_right _ hext.ready.mem) _ hy rfl
  rw [hcount]
  refine ⟨⟨?_, ?_, ?_, hext.rooted⟩, hown.congr rfl rfl⟩
  · simp [countBlock, setNumber, hcount]
  · exact hext.ready.write block s'.blocks
  · apply hext.singLevel.congr (fun _ _ _ => rfl)
    intro y hy
    funext i
    exact (setNumber_table ..).trans (if_neg fun h => hheld y hy h.1)

/-- A block entered into a free slot of the inode extends the layout. -/
theorem represents_setSlot (hloc : Located fs s l)
    (hown : Owned fs base s (block :: l.blocks)) (hlt : l.data.length < inodeBlocks) :
    Represents fs base (countBlock (setSlot s l.data.length block) block)
      ⟨l.data ++ [block], [], []⟩ := by
  have hsing : l.sing = [] := hloc.dataLevel.pages_eq_nil hlt.le
  have hdoub : l.doub = [] := hloc.singLevel.pages_eq_nil (by simp [hsing])
  have hperm : (block :: l.blocks).Perm (l.data ++ [block] ++ [] ++ []) := by
    simp only [Layout.blocks, hsing, hdoub, List.append_nil]
    exact (List.perm_append_singleton block l.data).symm
  refine ⟨⟨?_, ?_, Level.nil, by simp⟩, (hown.perm hperm).congr rfl rfl⟩
  · simp [countBlock, setSlot, hloc.count]
  · have hlevel := hloc.dataLevel
    rw [hsing] at hlevel
    apply hlevel.push_root hlt
    · intro i hi
      exact update_of_ne hi.ne ..
    · exact update_self ..

/-- One step of a growth fails without effect on the layout or appends a block. -/
theorem growStep_cases (h : Represents fs base s l)
    (hsingly : fs.blockMapSinglyBlocks = fs.blocksPerBlock * inodeBlocks)
    (hgrow : growStep fs s o = (r, s', o')) :
    s'.bpos = s.bpos ∧ ((r = none ∧ s'.size = s.size ∧ Represents fs base s' l) ∨
      ∃ b l', r = some b ∧ l'.data = l.data ++ [b] ∧ s'.size.offset = 0 ∧
        Represents fs base s' l') := by
  have hloc := h.located
  unfold growStep at hgrow
  rcases halloc : groupBitmapAlloc fs s o with ⟨r₁, s₁, o₁⟩
  rw [halloc] at hgrow
  rcases groupBitmapAlloc_cases h.owned halloc with ⟨rfl, rfl⟩ | ⟨b, rfl, -, -, hs₁, hown⟩
  · cases hgrow
    exact ⟨rfl, .inl ⟨rfl, rfl, h⟩⟩
  have hloc₁ : Located fs s₁ l := by
    rw [hs₁]
    exact { hloc with }
  have hbpos₁ : s₁.bpos = s.bpos := by rw [hs₁]
  have hsize₁ : s₁.size = s.size := by rw [hs₁]
  simp only [hloc₁.count] at hgrow
  split at hgrow
  · rename_i hlt
    cases hgrow
    exact ⟨hbpos₁, .inr ⟨b, _, rfl, rfl, rfl, represents_setSlot hloc₁ hown hlt⟩⟩
  · rename_i hge
    have hsub : l.blocks ⊆ b :: l.blocks := fun y hy => List.mem_cons_of_mem _ hy
    rcases hprep : (if l.data.length < fs.blockMapSinglyBlocks then growSingly fs s₁ o₁
          else growDoubly fs s₁ o₁) with ⟨ok, s₂, o₂⟩
    rw [hprep] at hgrow
    have hcases : (ok = false ∧ Unharmed fs base s₁ s₂ (b :: l.blocks)) ∨
        (ok = true ∧ ∃ sing doub, Extended fs base s₁ s₂ (b :: l.blocks) l sing doub) := by
      split at hprep
      · rename_i hlt
        exact growSingly_cases hloc₁ hown hsub h.owned.nodup (Nat.le_of_not_lt hge)
          (hsingly ▸ hlt) hprep
      · rename_i hnot
        rw [hsingly] at hnot
        have hlo := Nat.le_of_not_lt hnot
        by_cases hmod : l.data.length % fs.blocksPerBlock = 0
        · exact growDoubly_new hloc₁ hown hsub h.owned.nodup hsingly hlo hmod hprep
        · obtain ⟨hok, hext⟩ := growDoubly_last hloc₁ hown h.owned.nodup hlo hmod hprep
          exact .inr ⟨hok, [], [], hext⟩
    rcases hcases with ⟨rfl, hun⟩ | ⟨rfl, sing, doub, hext⟩
    · cases hgrow
      exact ⟨hun.bpos.trans hbpos₁, .inl ⟨rfl, hun.size.trans hsize₁, hun.represents hloc₁⟩⟩
    · cases hgrow
      exact ⟨hext.bpos.trans hbpos₁, .inr ⟨b, _, rfl, rfl, rfl, hext.represents hloc₁⟩⟩

/-- A growth appends the blocks of its completed steps, all of them if it succeeds. -/
theorem growLoop_spec (hsingly : fs.blockMapSinglyBlocks = fs.blocksPerBlock * inodeBlocks)
    (n : Nat) {rc : Errno} {added : List BlockNo} (h : Represents fs base s l)
    (hgrow : growLoop fs n s o = (rc, added, s')) :
    s'.bpos = s.bpos ∧ s'.size.offset = (if added = [] then s.size.offset else 0) ∧
      (∃ l', l'.data = l.data ++ added ∧ Represents fs base s' l') ∧
      ((rc = .ok ∧ added.length = n) ∨ (rc = .enospc ∧ added.length < n)) := by
  induction n generalizing s l o rc added with
  | zero =>
    cases hgrow
    exact ⟨rfl, rfl, ⟨l, by simp, h⟩, .inl ⟨rfl, rfl⟩⟩
  | succ n ih =>
    rcases hstep : growStep fs s o with ⟨r, s₁, o₁⟩
    unfold growLoop at hgrow
    rw [hstep] at hgrow
    obtain ⟨hbpos, hcases⟩ := growStep_cases h hsingly hstep
    rcases hcases with ⟨rfl, hsize, h₁⟩ | ⟨b, l₁, rfl, hdata, hoffset, h₁⟩
    · cases hgrow
      exact ⟨hbpos, by rw [hsize]; rfl, ⟨l, by simp, h₁⟩, .inr ⟨rfl, Nat.succ_pos n⟩⟩
    · rcases hloop : growLoop fs n s₁ o₁ with ⟨rc', added', s₂⟩
      simp only [hloop, Prod.mk.injEq] at hgrow
      obtain ⟨rfl, rfl, rfl⟩ := hgrow
      obtain ⟨hbpos', hoffset', ⟨l', hdata', h'⟩, hrc⟩ := ih h₁ hloop
      refine ⟨hbpos'.trans hbpos, by simp [hoffset', hoffset], ⟨l', by simp [hdata', hdata], h'⟩, ?_⟩
      rcases hrc with ⟨rfl, hlength⟩ | ⟨rfl, hlength⟩
      · exact .inl ⟨rfl, by rw [List.length_cons, hlength]⟩
      · exact .inr ⟨rfl, Nat.succ_lt_succ hlength⟩

end Rtems.Rfs.BlockMap
