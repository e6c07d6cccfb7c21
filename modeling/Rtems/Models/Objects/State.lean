import Rtems.Core.Run

/-!
# The local objects of a class

Model of `_Objects_Information` and of the operations that extend, shrink and use it:
`_Objects_Extend_information`, `_Objects_Shrink_information`, `_Objects_Allocate_unprotected`,
`_Objects_Free`, `_Objects_Open`, `_Objects_Close` and `_Objects_Get`. A table is the memory
its pointer refers to, a function of the position; a freshly allocated table has arbitrary
contents. An object is the slot of the block of objects it lies in.
-/

namespace Rtems.Objects

/-- The identifier of an object, `Objects_Id`. -/
abbrev Id := BitVec 32

/-- The greatest index an identifier can carry, `OBJECTS_ID_FINAL_INDEX`. -/
def finalIndex : Nat := 0xffff

/-- Build an identifier from its parts, `_Objects_Build_id`. -/
def buildId (theApi : BitVec 32) (theClass : BitVec 16) (node : BitVec 8) (index : BitVec 16) :
    Id :=
  (theApi <<< 24) ||| (theClass.setWidth 32 <<< 27) ||| (node.setWidth 32 <<< 16) |||
    index.setWidth 32

/-- The index part of an identifier, `_Objects_Get_index`. -/
def getIndex (id : Id) : Nat := (id &&& 0xffff#32).toNat

/-- An object control: the slot-th object of a block of objects. -/
structure Control (K : Type) where
  /-- The address of the block of objects. -/
  block : K
  /-- The position in the block. -/
  slot : Nat
  deriving DecidableEq

/-- The contents of the three parallel tables. -/
structure Tables (K : Type) where
  /-- The address of each block of objects, `NULL` if the block was freed. -/
  objectBlocks : Nat → Option K
  /-- The number of inactive objects of each block. -/
  inactivePerBlock : Nat → Nat
  /-- The open object of each index. -/
  localTable : Nat → Option (Control K)

/-- The information block of a class of local objects. -/
structure Information (K : Type) where
  theApi : BitVec 32
  theClass : BitVec 16
  /-- The node of the local objects, `_Objects_Local_node`. -/
  localNode : BitVec 8
  /-- The size of an object, zero if the manager is not present. -/
  size : Nat
  autoExtend : Bool
  allocationSize : Nat
  minimumId : Id
  maximumId : Id
  maximum : Nat
  /-- The `object_blocks` pointer is `NULL` until the first tables are allocated. -/
  hasTables : Bool
  tables : Tables K
  inactive : Nat
  /-- The `Inactive` chain. -/
  chain : List (Control K)
  /-- The identifier field of each object. -/
  id : Control K → Id

/-- The outcome of the two workspace allocations of an extension: the address of the block of
objects and the previous contents of the memory for the tables. -/
structure Workspace (K : Type) where
  objects : Option K
  tables : Option (Tables K)

variable {K : Type}

namespace Information

/-- The identifier of an index of the class. -/
def idOf (info : Information K) (index : Nat) : Id :=
  buildId info.theApi info.theClass info.localNode (.ofNat 16 index)

/-- The index of an object. -/
def index (info : Information K) (o : Control K) : Nat := getIndex (info.id o)

/-- The least index of the class. -/
def minimumIndex (info : Information K) : Nat := getIndex info.minimumId

/-- The number of blocks of the current tables. -/
def blockCount (info : Information K) : Nat :=
  if info.hasTables then info.maximum / info.allocationSize else 0

/-- The first block without objects, or the number of blocks. -/
def freeBlock (info : Information K) : Nat :=
  ((List.range info.blockCount).find? fun b => (info.tables.objectBlocks b).isNone).getD
    info.blockCount

end Information

open Information

/-- Replace the tables by larger ones that were found with the contents `fresh`. The old
tables are copied only if the maximum is above the minimum index. -/
def growTables (info : Information K) (fresh : Tables K) (indexBase indexEnd maximum : Nat) :
    Information K :=
  let count := info.blockCount
  let old := info.tables
  let copied : Tables K :=
    if info.minimumIndex < info.maximum then
      { objectBlocks := fun b => if b < count then old.objectBlocks b else fresh.objectBlocks b
        inactivePerBlock := fun b =>
          if b < count then old.inactivePerBlock b else fresh.inactivePerBlock b
        localTable := fun i =>
          if i < info.maximum + info.minimumIndex then old.localTable i else fresh.localTable i }
    else
      { fresh with
        localTable := fun i => if i < info.minimumIndex then none else fresh.localTable i }
  { info with
    tables :=
      { objectBlocks := Function.update copied.objectBlocks count none
        inactivePerBlock := Function.update copied.inactivePerBlock count 0
        localTable := fun i =>
          if indexBase ≤ i ∧ i < indexEnd then none else copied.localTable i }
    hasTables := true
    maximum := maximum
    maximumId := info.idOf maximum }

/-- Enter a new block of objects and append its objects to the inactive chain. -/
def placeBlock [DecidableEq K] (info : Information K) (k : K) (block indexBase : Nat) :
    Information K :=
  { info with
    tables :=
      { info.tables with
        objectBlocks := Function.update info.tables.objectBlocks block (some k)
        inactivePerBlock :=
          Function.update info.tables.inactivePerBlock block info.allocationSize }
    id := fun o =>
      if o.block = k ∧ o.slot < info.allocationSize then info.idOf (indexBase + o.slot)
      else info.id o
    chain := info.chain ++ (List.range info.allocationSize).map (Control.mk k)
    inactive := info.inactive + info.allocationSize }

/-- Extend the tables by one block of objects, `_Objects_Extend_information`. Without
auto-extension a failed workspace allocation is a fatal error. -/
def extendInformation [DecidableEq K] (info : Information K) (w : Workspace K) :
    Option (Information K) :=
  let block := info.freeBlock
  let indexBase := info.minimumIndex + block * info.allocationSize
  let indexEnd := indexBase + info.allocationSize
  let maximum := info.maximum + info.allocationSize
  if finalIndex < maximum then some info
  else
    match w.objects with
    | none => if info.autoExtend then some info else none
    | some k =>
      if block < info.blockCount then some (placeBlock info k block indexBase)
      else
        match w.tables with
        | none => if info.autoExtend then some info else none
        | some fresh =>
          some (placeBlock (growTables info fresh indexBase indexEnd maximum) k block indexBase)

/-- The block of an index, as the counters are updated. -/
def Information.blockOf (info : Information K) (o : Control K) : Nat :=
  (info.index o - info.minimumIndex) / info.allocationSize

/-- Count an object of a block as taken from the inactive chain. -/
def countTaken (info : Information K) (o : Control K) : Information K :=
  { info with
    tables :=
      { info.tables with
        inactivePerBlock := Function.update info.tables.inactivePerBlock (info.blockOf o)
          (info.tables.inactivePerBlock (info.blockOf o) - 1) }
    inactive := info.inactive - 1 }

/-- Take the first object of the inactive chain, `_Objects_Get_inactive`. -/
def getInactive (info : Information K) : Option (Control K) × Information K :=
  match info.chain with
  | [] => (none, info)
  | o :: rest => (some o, { info with chain := rest })

/-- Allocate an object, `_Objects_Allocate_unprotected`; the outer result is absent after a
fatal error. -/
def allocateUnprotected [DecidableEq K] (info : Information K) (w : Workspace K) :
    Option (Option (Control K) × Information K) :=
  if info.size = 0 then some (none, info)
  else if info.autoExtend then do
    let got ←
      match getInactive info with
      | (none, info) => (extendInformation info w).map getInactive
      | got => some got
    match got with
    | (none, info) => some (none, info)
    | (some o, info) => some (some o, countTaken info o)
  else some (getInactive info)

/-- Free the objects of the first block, the last one apart, whose objects are all inactive,
`_Objects_Shrink_information`. -/
def shrinkInformation (info : Information K) : Information K :=
  let count := (info.maximum - info.minimumIndex) / info.allocationSize
  match (List.range count).find? fun b => info.tables.inactivePerBlock b == info.allocationSize with
  | none => info
  | some block =>
    let indexBase := info.minimumIndex + block * info.allocationSize
    let indexEnd := indexBase + info.allocationSize
    { info with
      chain := info.chain.filter fun o => ¬ (indexBase ≤ info.index o ∧ info.index o < indexEnd)
      tables :=
        { info.tables with
          objectBlocks := Function.update info.tables.objectBlocks block none
          inactivePerBlock := Function.update info.tables.inactivePerBlock block 0 }
      inactive := info.inactive - info.allocationSize }

/-- Append an object to the inactive chain and count it. -/
def putInactive (info : Information K) (o : Control K) : Information K :=
  { info with
    chain := info.chain ++ [o]
    tables :=
      if info.autoExtend then
        { info.tables with
          inactivePerBlock := Function.update info.tables.inactivePerBlock (info.blockOf o)
            (info.tables.inactivePerBlock (info.blockOf o) + 1) }
      else info.tables
    inactive := if info.autoExtend then info.inactive + 1 else info.inactive }

/-- Free an object, `_Objects_Free`. -/
def free (info : Information K) (o : Control K) : Information K :=
  let info := putInactive info o
  if info.autoExtend ∧ info.allocationSize + info.allocationSize / 2 < info.inactive then
    shrinkInformation info
  else info

/-- Set an entry of the local table, `_Objects_Set_local_object`. -/
def setLocalObject (info : Information K) (index : Nat) (o : Option (Control K)) :
    Information K :=
  { info with
    tables := { info.tables with localTable := Function.update info.tables.localTable index o } }

/-- Make an object known to look-ups, `_Objects_Open`. -/
def objectsOpen (info : Information K) (o : Control K) : Information K :=
  setLocalObject info (info.index o) (some o)

/-- Hide an object from look-ups, `_Objects_Close`. -/
def objectsClose (info : Information K) (o : Control K) : Information K :=
  setLocalObject info (info.index o) none

/-- Look an object up by its identifier, `_Objects_Get`. -/
def objectsGet (info : Information K) (id : Id) : Option (Control K) :=
  let index := (id - info.minimumId + 1).toNat
  if index ≤ info.maximum then info.tables.localTable index else none

/-- A configured class of local objects with at least one object per allocation. -/
structure ObjectClass where
  theApi : BitVec 32
  theClass : BitVec 16
  localNode : BitVec 8
  size : Nat
  size_pos : 0 < size
  /-- The number of objects of a block. -/
  maximumPerAllocation : Nat
  one_le : 1 ≤ maximumPerAllocation
  /-- The class extends itself, `_Objects_Is_unlimited`. -/
  unlimited : Bool

/-- The information block before its first extension. -/
def emptyInformation (c : ObjectClass) : Information K where
  theApi := c.theApi
  theClass := c.theClass
  localNode := c.localNode
  size := c.size
  autoExtend := c.unlimited
  allocationSize := c.maximumPerAllocation
  minimumId := buildId c.theApi c.theClass c.localNode 1
  maximumId := 0
  maximum := 0
  hasTables := false
  tables := ⟨fun _ => none, fun _ => 0, fun _ => none⟩
  inactive := 0
  chain := []
  id := fun _ => 0

/-- Set up a class, `_Objects_Do_initialize_information`; the result is absent after a fatal
error. -/
def doInitializeInformation [DecidableEq K] (c : ObjectClass) (w : Workspace K) :
    Option (Information K) :=
  extendInformation (emptyInformation c) w

/-- The information block with the objects handed out and those of them that are open. -/
structure System (K : Type) where
  info : Information K
  handed : List (Control K)
  opened : List (Control K)

/-- The calls on a class of objects. -/
inductive Op (K : Type) where
  /-- An allocation, with the outcome of the workspace allocations it may make. -/
  | allocate (w : Workspace K)
  | objectsOpen (o : Control K)
  | objectsClose (o : Control K)
  | free (o : Control K)

/-- A block of objects is in the block table. -/
def Information.Holds (info : Information K) (b : Nat) (k : K) : Prop :=
  b < info.blockCount ∧ info.tables.objectBlocks b = some k

/-- The obligations of the callers: the workspace returns unused memory, only objects handed
out are opened, and they are closed before they are freed. -/
def Legal (s : System K) : Op K → Prop
  | .allocate w => ∀ b < s.info.blockCount, ∀ k ∈ w.objects, s.info.tables.objectBlocks b ≠ some k
  | .objectsOpen o => o ∈ s.handed
  | .objectsClose o => o ∈ s.opened
  | .free o => o ∈ s.handed ∧ o ∉ s.opened

/-- The allocation extends tables of exactly one index. -/
def ExtendsSingleton (info : Information K) (w : Workspace K) : Prop :=
  info.autoExtend = true ∧ info.allocationSize = 1 ∧ info.maximum = 1 ∧ info.chain = [] ∧
    w.objects.isSome ∧ w.tables.isSome

/-- A legal call that does not extend tables of exactly one index. -/
def Safe (s : System K) (op : Op K) : Prop :=
  Legal s op ∧
    match op with
    | .allocate w => ¬ ExtendsSingleton s.info w
    | _ => True

variable [DecidableEq K]

instance (info : Information K) (w : Workspace K) : Decidable (ExtendsSingleton info w) :=
  inferInstanceAs (Decidable (_ ∧ _ ∧ _ ∧ _ ∧ _))

instance (s : System K) : (op : Op K) → Decidable (Legal s op)
  | .allocate w => inferInstanceAs (Decidable (∀ b < _, ∀ k ∈ w.objects, _ ≠ some k))
  | .objectsOpen _ | .objectsClose _ => inferInstanceAs (Decidable (_ ∈ _))
  | .free _ => inferInstanceAs (Decidable (_ ∧ _))

instance (s : System K) : (op : Op K) → Decidable (Safe s op)
  | .allocate w => inferInstanceAs (Decidable (Legal s (.allocate w) ∧ ¬ _))
  | .objectsOpen o => inferInstanceAs (Decidable (Legal s (.objectsOpen o) ∧ True))
  | .objectsClose o => inferInstanceAs (Decidable (Legal s (.objectsClose o) ∧ True))
  | .free o => inferInstanceAs (Decidable (Legal s (.free o) ∧ True))

/-- One call. -/
def step (s : System K) : Op K → Option (System K)
  | .allocate w => do
    let (o, info) ← allocateUnprotected s.info w
    some { s with
      info := info
      handed := s.handed ++ o.toList }
  | .objectsOpen o => some { s with
      info := Objects.objectsOpen s.info o
      opened := o :: s.opened }
  | .objectsClose o => some { s with
      info := Objects.objectsClose s.info o
      opened := s.opened.filter (· ≠ o) }
  | .free o => some { s with
      info := Objects.free s.info o
      handed := s.handed.erase o }

end Rtems.Objects
