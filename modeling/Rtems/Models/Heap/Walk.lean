import Mathlib.Algebra.Group.Nat.Defs
import Mathlib.Data.List.Perm.Subperm
import Rtems.Core.Linked
import Rtems.Models.Heap.State

/-!
# The heap checker

The checker walks over a memory that may have any contents. The back links of the free list and
the order of the block addresses are checked on the way, so both walks end. The link back of the
head of the free list is never read. The texts that are printed are not represented.
-/

namespace Rtems.Heap

namespace Control

variable (heap : Control)

/-- `_Heap_Walk_check_free_list`. -/
def walkCheckFreeList : Nat → Nat → Nat → Option Bool
  | fuel, prevBlock, freeBlock =>
    if freeBlock = heap.freeList then some true
    else if heap.isBlockInHeap freeBlock = false then some false
    else if heap.allocAreaOfBlock freeBlock % heap.pageSize ≠ 0 then some false
    else if heap.isUsed freeBlock = true then some false
    else if heap.prev freeBlock ≠ prevBlock then some false
    else
      match fuel with
      | 0 => none
      | fuel + 1 => walkCheckFreeList fuel freeBlock (heap.next freeBlock)

/-- `_Heap_Walk_is_in_free_list`. -/
def walkIsInFreeList (block : Nat) : Nat → Nat → Option Bool
  | fuel, freeBlock =>
    if freeBlock = heap.freeList then some false
    else if freeBlock = block then some true
    else
      match fuel with
      | 0 => none
      | fuel + 1 => walkIsInFreeList block fuel (heap.next freeBlock)

/-- `_Heap_Walk_check_control`. -/
def walkCheckControl (fuel : Nat) : Option Bool :=
  let lastBlock := heap.lastBlock
  if heap.pageSize = 0 then some false
  else if heap.pageSize % heap.cpu.alignment ≠ 0 then some false
  else if heap.minBlockSize % heap.pageSize ≠ 0 then some false
  else if heap.allocAreaOfBlock heap.firstBlock % heap.pageSize ≠ 0 then some false
  else if heap.isPrevUsed heap.firstBlock = false then some false
  else if heap.isUsed lastBlock = false then some false
  else if heap.blockAt lastBlock (heap.blockSize lastBlock) ≠ heap.firstBlock then some false
  else heap.walkCheckFreeList fuel heap.freeList (heap.next heap.freeList)

/-- `_Heap_Walk_check_free_block`. -/
def walkCheckFreeBlock (fuel block : Nat) : Option Bool :=
  let blockSize := heap.blockSize block
  let nextBlock := heap.blockAt block blockSize
  if blockSize ≠ heap.prevSize nextBlock then some false
  else if heap.isPrevUsed block = false then some false
  else heap.walkIsInFreeList block fuel (heap.next heap.freeList)

/-- The loop of `_Heap_Walk`. -/
def walkLoop (listFuel : Nat) : Nat → Nat → Option Bool
  | fuel, block =>
    let blockSize := heap.blockSize block
    let nextBlock := heap.blockAt block blockSize
    if heap.isBlockInHeap nextBlock = false then some false
    else if blockSize % heap.pageSize ≠ 0 ∧ block ≠ heap.lastBlock then some false
    else if blockSize < heap.minBlockSize ∧ block ≠ heap.lastBlock then some false
    else if nextBlock ≤ block ∧ block ≠ heap.lastBlock then some false
    else
      let checked :=
        if heap.isPrevUsed nextBlock = false then heap.walkCheckFreeBlock listFuel block
        else some true
      match checked with
      | none => none
      | some false => some false
      | some true =>
        if nextBlock = heap.firstBlock then some true
        else
          match fuel with
          | 0 => none
          | fuel + 1 => walkLoop listFuel fuel nextBlock

/-- `_Heap_Walk`. -/
def walk (systemIsUp : Bool) (fuel : Nat) : Option Bool :=
  if systemIsUp = false then some true
  else
    match heap.walkCheckControl fuel with
    | none => none
    | some false => some false
    | some true => heap.walkLoop fuel fuel heap.firstBlock

/-- The addresses between the first and the last block. -/
def span : Nat := heap.lastBlock + 1 - heap.firstBlock

end Control

/-- A free list that the checker has followed. -/
structure Followed (heap : Control) (nodes : List Nat) : Prop where
  /-- The links lead from the head to the nodes, and the back links lead back. -/
  chain : (heap.freeList :: nodes).IsChain fun a b => heap.next a = b ∧ heap.prev b = a
  /-- The head is no node. -/
  head : heap.freeList ∉ nodes
  /-- The nodes are in the heap. -/
  inHeap : ∀ x ∈ nodes, heap.firstBlock ≤ x ∧ x ≤ heap.lastBlock

/-- The blocks that the walk passes from some block on. -/
structure Passed (heap : Control) (nodes blocks : List Nat) : Prop where
  /-- They end with the last block. -/
  last : blocks.getLast? = some heap.lastBlock
  /-- They tile the memory between, and none is too small. -/
  tiles : blocks.IsChain fun a b =>
    a < b ∧ b = a + heap.blockSize a ∧ heap.minBlockSize ≤ heap.blockSize a
  /-- No two neighbours are free. -/
  apart : blocks.IsChain fun a b => ¬(heap.isUsed a = false ∧ heap.isUsed b = false)
  /-- A free block is listed, and its neighbour below is used. -/
  listed : ∀ a ∈ blocks, heap.isUsed a = false → heap.isPrevUsed a = true ∧ a ∈ nodes

/-- The blocks and the free list of a heap that the checker accepts. -/
structure Walked (heap : Control) (blocks nodes : List Nat) : Prop where
  /-- The blocks begin with the first block. -/
  first : blocks.head? = some heap.firstBlock
  /-- They tile the memory up to the last block, and the free ones are apart and listed. -/
  passed : Passed heap nodes blocks
  /-- The back links of the free list invert its links. -/
  chain : (heap.freeList :: nodes).IsChain fun a b => heap.next a = b ∧ heap.prev b = a
  /-- The list ends behind its last node. -/
  closed : ∀ x ∈ (heap.freeList :: nodes).getLast?, heap.next x = heap.freeList
  /-- No node is there twice. -/
  nodup : (heap.freeList :: nodes).Nodup

/-- The blocks and the free list of a heap whose free list is a ring in both directions. -/
structure Sound (heap : Control) (blocks nodes : List Nat) : Prop extends
    Walked heap blocks nodes where
  /-- The link back of the head inverts the link of the last node. -/
  headBack : (heap.freeList :: nodes).getLast? = some (heap.prev heap.freeList)

variable {heap : Control} {nodes : List Nat} {fuel listFuel block : Nat}

/-- What one pass of the check of the free list does. -/
theorem walkCheckFreeList_cases (heap : Control) (prevBlock freeBlock : Nat) :
    (freeBlock = heap.freeList ∧
      ∀ fuel, heap.walkCheckFreeList fuel prevBlock freeBlock = some true) ∨
    (∀ fuel, heap.walkCheckFreeList fuel prevBlock freeBlock = some false) ∨
    (freeBlock ≠ heap.freeList ∧ heap.isBlockInHeap freeBlock = true ∧
      heap.prev freeBlock = prevBlock ∧
      ∀ fuel, heap.walkCheckFreeList (fuel + 1) prevBlock freeBlock =
        heap.walkCheckFreeList fuel freeBlock (heap.next freeBlock)) := by
  by_cases hend : freeBlock = heap.freeList
  · refine .inl ⟨hend, fun fuel => ?_⟩
    rw [Control.walkCheckFreeList.eq_def]
    exact if_pos hend
  refine .inr ?_
  by_cases hpass : heap.isBlockInHeap freeBlock = true ∧
      heap.allocAreaOfBlock freeBlock % heap.pageSize = 0 ∧ heap.isUsed freeBlock = false ∧
      heap.prev freeBlock = prevBlock
  · obtain ⟨hin, haligned, hfree, hprev⟩ := hpass
    refine .inr ⟨hend, hin, hprev, fun fuel => ?_⟩
    rw [Control.walkCheckFreeList.eq_def]
    simp [hend, hin, haligned, hfree, hprev]
  · refine .inl fun fuel => ?_
    rw [Control.walkCheckFreeList.eq_def]
    simp only [if_neg hend]
    split_ifs with hin haligned hused hprev
    · rfl
    · rfl
    · rfl
    · rfl
    · exact absurd ⟨by simpa using hin, not_not.mp haligned, by simpa using hused,
        not_not.mp hprev⟩ hpass

section

variable (h : Followed heap nodes)
include h

theorem Followed.nodup : (heap.freeList :: nodes).Nodup :=
  nodup_of_backLinked (h.chain.imp fun _ _ hab => hab.2) h.head

/-- There are not more nodes than addresses. -/
theorem Followed.length_le : nodes.length ≤ heap.span := by
  have hsub : nodes ⊆ List.range' heap.firstBlock heap.span := by
    intro x hx
    have := h.inHeap x hx
    rw [List.mem_range'_1]
    unfold Control.span
    omega
  have hle := (List.subperm_of_subset (List.nodup_cons.mp h.nodup).2 hsub).length_le
  rwa [List.length_range'] at hle

/-- One more node is followed. -/
theorem Followed.snoc {x prevBlock : Nat}
    (hlast : (heap.freeList :: nodes).getLast? = some prevBlock)
    (hnext : heap.next prevBlock = x) (hprev : heap.prev x = prevBlock)
    (hhead : x ≠ heap.freeList) (hin : heap.isBlockInHeap x = true) :
    Followed heap (nodes ++ [x]) where
  chain := by
    refine List.isChain_append.mpr ⟨h.chain, List.isChain_singleton x, ?_⟩
    intro a ha b hb
    rw [hlast, Option.mem_some_iff] at ha
    rw [List.head?_cons, Option.mem_some_iff] at hb
    subst ha hb
    exact ⟨hnext, hprev⟩
  head := by
    intro hm
    rcases List.mem_append.mp hm with hm | hm
    · exact h.head hm
    · exact hhead (List.mem_singleton.mp hm).symm
  inHeap := by
    intro y hy
    rcases List.mem_append.mp hy with hy | hy
    · exact h.inHeap y hy
    · rw [List.mem_singleton.mp hy]
      exact of_decide_eq_true hin

/-- The check of the free list ends. If it succeeds, the whole list was followed. -/
theorem walkCheckFreeList_spec {prevBlock freeBlock : Nat}
    (hlast : (heap.freeList :: nodes).getLast? = some prevBlock)
    (hnext : heap.next prevBlock = freeBlock) (hfuel : heap.span < fuel + nodes.length) :
    ∃ r, heap.walkCheckFreeList fuel prevBlock freeBlock = some r ∧
      (r = true → ∃ nodes', Followed heap nodes' ∧
        ∀ x ∈ (heap.freeList :: nodes').getLast?, heap.next x = heap.freeList) := by
  induction fuel generalizing nodes prevBlock freeBlock with
  | zero =>
    -- There are not that many addresses.
    have := h.length_le
    omega
  | succ fuel ih =>
    rcases walkCheckFreeList_cases heap prevBlock freeBlock with
      ⟨hend, htrue⟩ | hfalse | ⟨hhead, hin, hprev, hstep⟩
    · refine ⟨true, htrue _, fun _ => ⟨nodes, h, ?_⟩⟩
      intro x hx
      rw [hlast, Option.mem_some_iff] at hx
      rw [← hx, hnext, hend]
    · exact ⟨false, hfalse _, fun hf => absurd hf (by decide)⟩
    · rw [hstep]
      refine ih (h.snoc hlast hnext hprev hhead hin)
        (by rw [← List.cons_append, List.getLast?_concat]) rfl ?_
      rw [List.length_append, List.length_singleton]
      omega

end

/-- The search in the free list finds exactly its nodes. -/
theorem walkIsInFreeList_spec {l r : List Nat} {freeBlock : Nat}
    (hchain : (heap.freeList :: (l ++ r)).IsChain fun a b => heap.next a = b)
    (hclosed : ∀ x ∈ (heap.freeList :: (l ++ r)).getLast?, heap.next x = heap.freeList)
    (hhead : heap.freeList ∉ r) (hfirst : freeBlock = r.headD heap.freeList)
    (hfuel : r.length ≤ fuel) :
    heap.walkIsInFreeList block fuel freeBlock = some (decide (block ∈ r)) := by
  induction r generalizing l fuel freeBlock with
  | nil =>
    rw [Control.walkIsInFreeList.eq_def]
    exact if_pos hfirst
  | cons x r ih =>
    obtain rfl : freeBlock = x := hfirst
    have hx : freeBlock ≠ heap.freeList := fun he => hhead (he ▸ List.mem_cons_self)
    rw [Control.walkIsInFreeList.eq_def]
    simp only [if_neg hx]
    by_cases hblock : freeBlock = block
    · rw [if_pos hblock]
      simp [hblock]
    · obtain ⟨fuel, rfl⟩ := Nat.exists_eq_succ_of_ne_zero
        (show fuel ≠ 0 by rw [List.length_cons] at hfuel; omega)
      have hnext : heap.next freeBlock = r.headD heap.freeList := by
        cases r with
        | nil => exact hclosed freeBlock (by rw [← List.cons_append, List.getLast?_concat]; rfl)
        | cons y r =>
          rw [← List.cons_append, List.isChain_append_cons_cons] at hchain
          exact hchain.2.1
      rw [if_neg hblock]
      refine (@ih fuel (l ++ [freeBlock]) (heap.next freeBlock) ?_ ?_ ?_ hnext ?_).trans ?_
      · simpa using hchain
      · simpa using hclosed
      · exact fun hm => hhead (List.mem_cons_of_mem _ hm)
      · rw [List.length_cons] at hfuel
        omega
      · simp [Ne.symm hblock]

/-- What the walk asks of a block that is not the last one. -/
def Stepped (heap : Control) (block : Nat) : Prop :=
  heap.blockSize block % heap.pageSize = 0 ∧ heap.minBlockSize ≤ heap.blockSize block ∧
    block < heap.blockAt block (heap.blockSize block)

/-- What the walk asks of a free block. -/
def Accepted (heap : Control) (nodes : List Nat) (block : Nat) : Prop :=
  heap.blockSize block = heap.prevSize (heap.blockAt block (heap.blockSize block)) ∧
    heap.isPrevUsed block = true ∧ block ∈ nodes

theorem blockAt_of_lt {size : Nat} (hblock : block < heap.cpu.limit)
    (hsize : size < heap.cpu.limit) (hlater : block < heap.blockAt block size) :
    heap.blockAt block size = block + size := by
  unfold Control.blockAt Cpu.add at *
  rcases Nat.lt_or_ge (block + size) heap.cpu.limit with hlt | hge
  · exact Nat.mod_eq_of_lt hlt
  · rw [Nat.mod_eq_sub_mod hge, Nat.mod_eq_of_lt (by omega)] at hlater
    omega

/-- One more block in front is passed. -/
theorem Passed.cons {blocks : List Nat} {next : Nat} (h : Passed heap nodes (next :: blocks))
    (hnext : heap.blockAt block (heap.blockSize block) = next)
    (hadd : next = block + heap.blockSize block) (hstep : Stepped heap block)
    (hlisted : heap.isUsed block = false → Accepted heap nodes block) :
    Passed heap nodes (block :: next :: blocks) where
  last := by rw [List.getLast?_cons_cons, h.last]
  tiles := List.isChain_cons_cons.mpr ⟨⟨hnext ▸ hstep.2.2, hadd, hstep.2.1⟩, h.tiles⟩
  apart := by
    refine List.isChain_cons_cons.mpr ⟨?_, h.apart⟩
    rintro ⟨hfree, hnextFree⟩
    -- The flag in the next block says that this one is used.
    have hused := (h.listed next List.mem_cons_self hnextFree).1
    rw [← hnext] at hused
    exact absurd (hfree.symm.trans hused) (by decide)
  listed := by
    intro a ha hfree
    rcases List.mem_cons.mp ha with rfl | ha
    · exact (hlisted hfree).2
    · exact h.listed a ha hfree

section

variable (h : Followed heap nodes) (hclosed : ∀ x ∈
  (heap.freeList :: nodes).getLast?, heap.next x = heap.freeList)
include h hclosed

/-- A free block is accepted if its size is repeated, its neighbour is used and it is listed. -/
theorem walkCheckFreeBlock_eq (hfuel : nodes.length ≤ fuel) (block : Nat) :
    heap.walkCheckFreeBlock fuel block = some (decide
      (heap.blockSize block = heap.prevSize (heap.blockAt block (heap.blockSize block)) ∧
        heap.isPrevUsed block = true ∧ block ∈ nodes)) := by
  have hfirst : heap.next heap.freeList = nodes.headD heap.freeList := by
    cases nodes with
    | nil => exact hclosed heap.freeList rfl
    | cons x nodes => exact (List.isChain_cons_cons.mp h.chain).1.1
  have hsearch := @walkIsInFreeList_spec heap fuel block [] nodes _
    (h.chain.imp fun _ _ hab => hab.1) hclosed h.head hfirst hfuel
  unfold Control.walkCheckFreeBlock
  simp only
  split_ifs with hsize hprev
  · simp [hsize]
  · simp [hprev]
  · rw [hsearch, Option.some_inj, decide_eq_decide]
    constructor
    · intro hm
      exact ⟨not_not.mp hsize, by simpa using hprev, hm⟩
    · intro hall
      exact hall.2.2

/-- What one pass of the walk over the blocks does. -/
theorem walkLoop_cases (hfuel : nodes.length ≤ listFuel) (block : Nat) :
    (∀ fuel, heap.walkLoop listFuel fuel block = some false) ∨
    (heap.isBlockInHeap (heap.blockAt block (heap.blockSize block)) = true ∧
      (block ≠ heap.lastBlock → Stepped heap block) ∧
      (heap.isUsed block = false → Accepted heap nodes block) ∧
      (heap.blockAt block (heap.blockSize block) = heap.firstBlock →
        ∀ fuel, heap.walkLoop listFuel fuel block = some true) ∧
      (heap.blockAt block (heap.blockSize block) ≠ heap.firstBlock →
        ∀ fuel, heap.walkLoop listFuel (fuel + 1) block =
          heap.walkLoop listFuel fuel (heap.blockAt block (heap.blockSize block)))) := by
  -- The inner check is decided first; what is left of a pass is a chain of tests.
  have hchecked : ∃ r, (if heap.isPrevUsed (heap.blockAt block (heap.blockSize block)) = false
      then heap.walkCheckFreeBlock listFuel block else some true) = some r ∧
        (r = true → heap.isUsed block = false → Accepted heap nodes block) := by
    rw [walkCheckFreeBlock_eq h hclosed hfuel block]
    split_ifs with hfree
    · refine ⟨_, rfl, fun hok _ => ?_⟩
      rw [decide_eq_true_iff] at hok
      exact hok
    · exact ⟨true, rfl, fun _ hu => absurd hu hfree⟩
  obtain ⟨r, hchecked, haccepted⟩ := hchecked
  have hloop : ∀ fuel, heap.walkLoop listFuel fuel block = _ :=
    fun fuel => Control.walkLoop.eq_def heap listFuel fuel block
  simp only at hloop
  simp only [hchecked] at hloop
  cases r with
  | true =>
    by_cases hin : heap.isBlockInHeap (heap.blockAt block (heap.blockSize block)) = false
    · exact .inl fun fuel => (hloop fuel).trans (if_pos hin)
    by_cases hpages : heap.blockSize block % heap.pageSize ≠ 0 ∧ block ≠ heap.lastBlock
    · exact .inl fun fuel => (hloop fuel).trans (by rw [if_neg hin, if_pos hpages])
    by_cases hmin : heap.blockSize block < heap.minBlockSize ∧ block ≠ heap.lastBlock
    · exact .inl fun fuel => (hloop fuel).trans (by rw [if_neg hin, if_neg hpages, if_pos hmin])
    by_cases hlater : heap.blockAt block (heap.blockSize block) ≤ block ∧ block ≠ heap.lastBlock
    · exact .inl fun fuel => (hloop fuel).trans
        (by rw [if_neg hin, if_neg hpages, if_neg hmin, if_pos hlater])
    simp only [if_neg hin, if_neg hpages, if_neg hmin, if_neg hlater] at hloop
    refine .inr ⟨by simpa using hin, fun hne => ⟨?_, ?_, ?_⟩, haccepted rfl, ?_, ?_⟩
    · by_contra hc
      exact hpages ⟨hc, hne⟩
    · exact not_lt.mp fun hc => hmin ⟨hc, hne⟩
    · exact not_le.mp fun hc => hlater ⟨hc, hne⟩
    · intro hfirst fuel
      exact (hloop fuel).trans (if_pos hfirst)
    · intro hfirst fuel
      exact (hloop (fuel + 1)).trans (if_neg hfirst)
  | false =>
    refine .inl fun fuel => (hloop fuel).trans ?_
    simp only [ite_self]

/-- The walk over the blocks ends. If it succeeds, the blocks up to the last one were passed. -/
theorem walkLoop_spec (hlist : nodes.length ≤ listFuel) (hmem : ∀ w, heap.mem w < heap.cpu.limit)
    (hlimit : heap.lastBlock < heap.cpu.limit) (hlastUsed : heap.isUsed heap.lastBlock = true)
    (hring : heap.blockAt heap.lastBlock (heap.blockSize heap.lastBlock) = heap.firstBlock)
    (hfirst : heap.firstBlock ≤ block) (hle : block ≤ heap.lastBlock)
    (hfuel : heap.lastBlock < fuel + block) :
    ∃ r, heap.walkLoop listFuel fuel block = some r ∧
      (r = true → ∃ blocks, Passed heap nodes (block :: blocks)) := by
  induction fuel generalizing block with
  | zero => omega
  | succ fuel ih =>
    rcases walkLoop_cases h hclosed hlist block with
      hfalse | ⟨hin, hstepped, haccepted, hend, hstep⟩
    · exact ⟨false, hfalse _, fun hf => absurd hf (by decide)⟩
    by_cases hlast : block = heap.lastBlock
    · subst hlast
      refine ⟨true, hend hring _, fun _ => ⟨[], rfl, .singleton _, .singleton _, ?_⟩⟩
      intro a ha hfree
      rw [List.mem_singleton.mp ha, hlastUsed] at hfree
      exact absurd hfree (by decide)
    · have hsteppedHere := hstepped hlast
      have hlater := hsteppedHere.2.2
      have hsize : heap.blockSize block < heap.cpu.limit :=
        lt_of_le_of_lt (Nat.sub_le _ _) (hmem _)
      have hadd := blockAt_of_lt (lt_of_le_of_lt hle hlimit) hsize hlater
      generalize hnext : heap.blockAt block (heap.blockSize block) = next at *
      have hrange : heap.firstBlock ≤ next ∧ next ≤ heap.lastBlock := of_decide_eq_true hin
      rw [hstep (by omega)]
      obtain ⟨r, hr, hpassed⟩ := ih hrange.1 hrange.2 (by omega)
      refine ⟨r, hr, fun htrue => ?_⟩
      obtain ⟨blocks, hblocks⟩ := hpassed htrue
      exact ⟨next :: blocks, hblocks.cons hnext hadd hsteppedHere haccepted⟩

end

/-- The check of the control block ends. If it succeeds, the free list was followed and the last
block leads back to the first one. -/
theorem walkCheckControl_spec (hfuel : heap.span < fuel) :
    ∃ r, heap.walkCheckControl fuel = some r ∧
      (r = true → heap.isUsed heap.lastBlock = true ∧
        heap.blockAt heap.lastBlock (heap.blockSize heap.lastBlock) = heap.firstBlock ∧
        ∃ nodes, Followed heap nodes ∧
          ∀ x ∈ (heap.freeList :: nodes).getLast?, heap.next x = heap.freeList) := by
  have hempty : Followed heap [] :=
    ⟨.singleton _, List.not_mem_nil, fun x hx => absurd hx List.not_mem_nil⟩
  obtain ⟨r, hr, hlist⟩ := walkCheckFreeList_spec hempty rfl rfl
    (show heap.span < fuel + ([] : List Nat).length from hfuel)
  unfold Control.walkCheckControl
  simp only
  split_ifs with hpage haligned hmin hfirst hprevUsed hlast hring
  case neg =>
    exact ⟨r, hr, fun htrue => ⟨by simpa using hlast, not_not.mp hring, hlist htrue⟩⟩
  all_goals exact ⟨false, rfl, fun hf => absurd hf (by decide)⟩

/-- The checker ends. If it succeeds, the blocks tile the heap, no two free ones are neighbours,
and the free ones are in a finite free list. -/
theorem walk_spec (hmem : ∀ w, heap.mem w < heap.cpu.limit)
    (hlimit : heap.lastBlock < heap.cpu.limit) (hfuel : heap.span < fuel) :
    ∃ r, heap.walk true fuel = some r ∧
      (r = true → ∃ blocks nodes, Walked heap blocks nodes) := by
  obtain ⟨r, hr, hcontrol⟩ := walkCheckControl_spec hfuel
  unfold Control.walk
  rw [if_neg (by decide), hr]
  cases r with
  | false => exact ⟨false, rfl, fun hf => absurd hf (by decide)⟩
  | true =>
    obtain ⟨hlastUsed, hring, nodes, hnodes, hclosed⟩ := hcontrol rfl
    have hlist : nodes.length ≤ fuel := le_trans hnodes.length_le hfuel.le
    by_cases hle : heap.firstBlock ≤ heap.lastBlock
    · have hloop : heap.lastBlock < fuel + heap.firstBlock := by
        unfold Control.span at hfuel
        omega
      obtain ⟨r, hr, hpassed⟩ := walkLoop_spec hnodes hclosed hlist hmem hlimit hlastUsed hring
        le_rfl hle hloop
      refine ⟨r, hr, fun htrue => ?_⟩
      obtain ⟨blocks, hblocks⟩ := hpassed htrue
      exact ⟨_, nodes, rfl, hblocks, hnodes.chain, hclosed, hnodes.nodup⟩
    · -- No address is in such a heap.
      rcases walkLoop_cases hnodes hclosed hlist heap.firstBlock with hfalse | ⟨hin, _⟩
      · exact ⟨false, hfalse fuel, fun hf => absurd hf (by decide)⟩
      · have hrange := of_decide_eq_true hin
        exact absurd (le_trans hrange.1 hrange.2) hle

/-- A heap that the checker accepts is sound if and only if the links of its free list return to
the head from the block to which the link back of the head leads. -/
theorem Walked.exists_sound_iff {blocks : List Nat} (h : Walked heap blocks nodes) :
    (∃ blocks nodes, Sound heap blocks nodes) ↔
      ReturnsFrom heap.next heap.freeList (heap.prev heap.freeList) := by
  have hreturns : ∀ {blocks nodes : List Nat}, Walked heap blocks nodes →
      (ReturnsFrom heap.next heap.freeList (heap.prev heap.freeList) ↔
        (heap.freeList :: nodes).getLast? = some (heap.prev heap.freeList)) :=
    fun hw => returnsFrom_iff (hw.chain.imp fun _ _ hab => hab.1) hw.closed
      (List.nodup_cons.mp hw.nodup).1
  constructor
  · rintro ⟨blocks, nodes, hs⟩
    exact (hreturns hs.toWalked).mpr hs.headBack
  · intro hback
    exact ⟨blocks, nodes, h, (hreturns h).mp hback⟩

/-- Whatever the control block and the memory contain, the checker ends. If it succeeds, the
blocks tile the heap, no two free ones are neighbours, and the free ones are in a finite free
list. The links back of this list invert its links if and only if the head leads back to the node
from which the links return to the head. -/
theorem walk_ends_sound (hmem : ∀ w, heap.mem w < heap.cpu.limit)
    (hlimit : heap.lastBlock < heap.cpu.limit) (hfuel : heap.span < fuel) :
    ∃ r, heap.walk true fuel = some r ∧
      (r = true → (∃ blocks nodes, Walked heap blocks nodes) ∧
        ((∃ blocks nodes, Sound heap blocks nodes) ↔
          ReturnsFrom heap.next heap.freeList (heap.prev heap.freeList))) := by
  obtain ⟨r, hr, hwalked⟩ := walk_spec hmem hlimit hfuel
  refine ⟨r, hr, fun htrue => ?_⟩
  obtain ⟨blocks, nodes, h⟩ := hwalked htrue
  exact ⟨⟨blocks, nodes, h⟩, h.exists_sound_iff⟩

/-- A heap of one free block. The link back of the head of the free list is a parameter. -/
def oneFreeBlock (headPrev : Nat) : Control where
  cpu := ⟨4, 2 ^ 32, 8⟩
  mem w :=
    if w = 12 then 17 else if w = 16 then 100 else if w = 20 then 100 else if w = 24 then 16
    else if w = 28 then 2 ^ 32 - 16 else if w = 108 then 8 else if w = 112 then headPrev % 2 ^ 32
    else 0
  freeList := 100
  pageSize := 8
  minBlockSize := 16
  firstBlock := 8
  lastBlock := 24

theorem mem_oneFreeBlock_lt (headPrev w : Nat) : (oneFreeBlock headPrev).mem w < 2 ^ 32 := by
  simp only [oneFreeBlock]
  split_ifs <;> omega

/-- The checker accepts a heap of one free block, and this heap is sound. -/
theorem walk_ends_sound_oneFreeBlock : (oneFreeBlock 8).walk true 20 = some true ∧
    ∃ blocks nodes, Sound (oneFreeBlock 8) blocks nodes := by
  obtain ⟨r, hr, hsound⟩ := walk_ends_sound (mem_oneFreeBlock_lt 8)
    (show (oneFreeBlock 8).lastBlock < 2 ^ 32 by decide)
    (show (oneFreeBlock 8).span < 20 by decide)
  have htrue : (oneFreeBlock 8).walk true 20 = some true := by decide +kernel
  refine ⟨htrue, (hsound (Option.some.inj (hr.symm.trans htrue))).2.mpr ⟨1, ?_, ?_, ?_⟩⟩ <;>
    decide +kernel

/-- The checker accepts a heap whose head of the free list leads back to no block at all. -/
theorem walk_accepts_dangling_head : (oneFreeBlock 0).walk true 20 = some true ∧
    ¬∃ blocks nodes, Sound (oneFreeBlock 0) blocks nodes := by
  have htrue : (oneFreeBlock 0).walk true 20 = some true := by decide +kernel
  refine ⟨htrue, ?_⟩
  rintro ⟨blocks, nodes, h⟩
  obtain ⟨n, hn, -, hfirst⟩ := h.toWalked.exists_sound_iff.mp ⟨blocks, nodes, h⟩
  -- The links return to the head after two steps, from the block at 8.
  have hle : n ≤ 1 := Nat.not_lt.mp fun hlt => hfirst 1 hlt (by decide +kernel)
  have hcases : ∀ k ≤ 1, (oneFreeBlock 0).next^[k] 100 ≠ 0 := by decide +kernel
  exact hcases n hle hn

end Rtems.Heap
