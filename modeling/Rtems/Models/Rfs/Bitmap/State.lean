import Rtems.Core.Run

/-!
# Bitmaps of the RTEMS file system

A bitmap is an array of elements of 32 bits with a search map, which has a bit for each
element. A bit is set if it is zero. Both arrays are memory: an index outside the arrays
reaches what lies there, and the search records which elements it accesses. Positions
are integers, which the source keeps in `int32_t` and in `int`. The loops have a bound
on their iterations, after which they give up.
-/

namespace Rtems.Rfs.Bitmap

/-- `rtems_rfs_bitmap_element`. -/
abbrev Element := BitVec 32

/-- `RTEMS_RFS_BITMAP_ELEMENT_SET`. -/
def elementSet : Element := 0

/-- `RTEMS_RFS_BITMAP_ELEMENT_CLEAR`. -/
def elementClear : Element := BitVec.allOnes 32

/-- `rtems_rfs_bitmap_element_bits`. -/
def elementBits : Int := 32

/-- `RTEMS_RFS_BITMAP_SEARCH_WINDOW`. -/
def searchWindow : Int := elementBits * 64

/-- The mask `1 << offset`. -/
def bitAt (offset : Int) : Element := 1#32 <<< offset.toNat

/-- `rtems_rfs_bitmap_test`. -/
def test (target : Element) (bit : Int) : Bool := target &&& bitAt bit == 0

/-- `rtems_rfs_bitmap_set`. -/
def set (target bits : Element) : Element := target &&& ~~~bits

/-- `rtems_rfs_bitmap_clear`. -/
def clear (target bits : Element) : Element := target ||| bits

/-- `rtems_rfs_bitmap_merge`. -/
def merge (bits1 bits2 mask : Element) : Element := (bits1 &&& mask) ||| (bits2 &&& ~~~mask)

/-- `rtems_rfs_bitmap_match`. -/
def isMatch (bits1 bits2 : Element) : Bool := bits1 ^^^ bits2 == 0

/-- `rtems_rfs_bitmap_mask`. -/
def mask (size : Nat) : Element := BitVec.allOnes 32 >>> (32 - size)

/-- `rtems_rfs_bitmap_mask_section`. -/
def maskSection (start stop : Nat) : Element :=
  if start < stop then mask (stop - start) <<< start else 0

/-- `rtems_rfs_bitmap_elements`. -/
def elements (bits : Nat) : Nat := (bits - 1) / 32 + 1

/-- `rtems_rfs_bitmap_map_index`. -/
def mapIndex (bit : Int) : Int := bit / 32

/-- `rtems_rfs_bitmap_map_offset`. -/
def mapOffset (bit : Int) : Int := bit % 32

/-- `rtems_rfs_bitmap_control` with the memory of its two maps. -/
structure Control where
  size : Nat
  free : BitVec 32
  map : Int → Element
  searchBits : Int → Element

/-- An access to an element. -/
inductive Access
  | map (index : Int)
  | search (index : Int)
  deriving DecidableEq

/-- The element belongs to a bitmap of this size. -/
def Access.Belongs (size : Nat) : Access → Prop
  | map index => 0 ≤ index ∧ index < elements size
  | search index => 0 ≤ index ∧ index < elements (elements size)

instance (size : Nat) : (access : Access) → Decidable (access.Belongs size)
  | .map _ => inferInstanceAs (Decidable (_ ∧ _))
  | .search _ => inferInstanceAs (Decidable (_ ∧ _))

/-- `rtems_rfs_bitmap_map_set`; nothing if it returns `EINVAL`. -/
def mapSet (control : Control) (bit : Int) : Option Control :=
  if bit < 0 ∨ control.size ≤ bit then none
  else
    let index := mapIndex bit
    let element := set (control.map index) (bitAt (mapOffset bit))
    let control := { control with map := Function.update control.map index element }
    if isMatch element elementSet then
      let bit := index
      let index := mapIndex bit
      some { control with
        searchBits := Function.update control.searchBits index
          (set (control.searchBits index) (bitAt (mapOffset bit)))
        free := control.free - 1 }
    else some control

/-- `rtems_rfs_bitmap_map_clear`; nothing if it returns `EINVAL`. -/
def mapClear (control : Control) (bit : Int) : Option Control :=
  if bit < 0 ∨ control.size ≤ bit then none
  else
    let index := mapIndex bit
    let element := clear (control.map index) (bitAt (mapOffset bit))
    let search := mapIndex index
    some { control with
      map := Function.update control.map index element
      searchBits := Function.update control.searchBits search
        (clear (control.searchBits search) (bitAt (mapOffset index)))
      free := control.free + 1 }

/-- The local variables of the search; `map_bits` points to the element `map_index`. -/
structure Cursor where
  testBit : Int
  searchIndex : Int
  searchOffset : Int
  mapIndex : Int
  mapOffset : Int

/-- The offset at which a new element starts. -/
def firstOffset (direction : Int) : Int := if 0 < direction then 0 else elementBits - 1

/-- The loop over the bits of a map element, with the bit it finds and its offset. -/
def scanMap (element : Element) (direction endBit : Int) :
    Nat → Int → Int → Option (Option (Int × Int))
  | 0, _, _ => none
  | n + 1, testBit, mapOffset =>
    if 0 ≤ mapOffset ∧ mapOffset < elementBits then
      if test element mapOffset = false then some (some (testBit, mapOffset))
      else if testBit = endBit then some none
      else scanMap element direction endBit n (testBit + direction) (mapOffset + direction)
    else some none

/-- Set the bit that was found. -/
def take (control : Control) (cursor : Cursor) (mapOffset : Int) : Control :=
  let element := set (control.map cursor.mapIndex) (bitAt mapOffset)
  { control with
    map := Function.update control.map cursor.mapIndex element
    searchBits :=
      if isMatch element elementSet then
        Function.update control.searchBits cursor.searchIndex
          (set (control.searchBits cursor.searchIndex) (bitAt cursor.searchOffset))
      else control.searchBits
    free := control.free - 1 }

/-- The search found a bit, or it goes on from a cursor. -/
inductive Search
  | found (control : Control) (bit : Int)
  | passed (cursor : Cursor)

/-- The next map element. -/
def nextElement (direction : Int) (cursor : Cursor) : Cursor where
  mapIndex := cursor.mapIndex + direction
  mapOffset := firstOffset direction
  testBit := (cursor.mapIndex + direction) * elementBits + firstOffset direction
  searchIndex := cursor.searchIndex
  searchOffset := cursor.searchOffset + direction

/-- The body of the loop over a search element: scan the element unless it is marked. -/
def scanElement (fuel : Nat) (control : Control) (direction endBit : Int) (cursor : Cursor) :
    Option (Option (Int × Int)) :=
  if test (control.searchBits cursor.searchIndex) cursor.searchOffset = false then
    scanMap (control.map cursor.mapIndex) direction endBit fuel cursor.testBit cursor.mapOffset
  else some none

/-- The elements that the body accesses. -/
def scanAccesses (control : Control) (cursor : Cursor) : List Access :=
  if test (control.searchBits cursor.searchIndex) cursor.searchOffset = false then
    [.map cursor.mapIndex, .search cursor.searchIndex]
  else [.search cursor.searchIndex]

/-- The loop over the bits of a search element. -/
def searchElement (fuel : Nat) (control : Control) (direction endBit : Int) :
    Nat → Cursor → List Access → Option (Search × List Access)
  | 0, _, _ => none
  | n + 1, cursor, accesses =>
    if 0 ≤ cursor.searchOffset ∧ cursor.searchOffset < elementBits then
      let accesses := scanAccesses control cursor ++ accesses
      match scanElement fuel control direction endBit cursor with
      | none => none
      | some (some (bit, offset)) => some (.found (take control cursor offset) bit, accesses)
      | some none =>
        let cursor := nextElement direction cursor
        if (direction < 0 ∧ cursor.testBit ≤ endBit) ∨ (0 < direction ∧ endBit ≤ cursor.testBit)
        then some (.passed cursor, accesses)
        else searchElement fuel control direction endBit n cursor accesses
    else some (.passed cursor, accesses)

/-- Pass a search element all of whose bits are set. -/
def skipElement (direction : Int) (cursor : Cursor) : Cursor :=
  let testBit := cursor.testBit / 32 * 32
  if 0 < direction then
    let bitsSkipped := elementBits - cursor.searchOffset
    { cursor with
      testBit := testBit + bitsSkipped * elementBits
      mapOffset := 0
      mapIndex := cursor.mapIndex + direction * bitsSkipped }
  else
    let bitsSkipped := cursor.searchOffset + 1
    { cursor with
      testBit := testBit - ((bitsSkipped - 1) * elementBits + 1)
      mapOffset := elementBits - 1
      mapIndex := cursor.mapIndex + direction * bitsSkipped }

/-- The next search element. -/
def nextSearch (direction : Int) (cursor : Cursor) : Cursor :=
  { cursor with
    searchIndex := cursor.searchIndex + direction
    searchOffset := firstOffset direction }

/-- What a search or an allocation leaves behind. -/
structure Result where
  control : Control
  /-- The bit that was found. -/
  bit : Option Int
  accesses : List Access

/-- The body of the loop over the search elements. -/
def searchBody (fuel : Nat) (control : Control) (direction endBit : Int) (cursor : Cursor)
    (accesses : List Access) : Option (Search × List Access) :=
  let accesses := .search cursor.searchIndex :: accesses
  if isMatch (control.searchBits cursor.searchIndex) elementSet = false then
    searchElement fuel control direction endBit fuel cursor accesses
  else some (.passed (skipElement direction cursor), accesses)

/-- The loop over the search elements. -/
def searchLoop (fuel : Nat) (control : Control) (direction endBit : Int) :
    Nat → Cursor → List Access → Option Result
  | 0, _, _ => none
  | n + 1, cursor, accesses =>
    match searchBody fuel control direction endBit cursor accesses with
    | none => none
    | some (.found control bit, accesses) => some ⟨control, some bit, accesses⟩
    | some (.passed cursor, accesses) =>
      let cursor := nextSearch direction cursor
      if (direction < 0 ∧ endBit ≤ cursor.testBit) ∨ (0 < direction ∧ cursor.testBit ≤ endBit)
      then searchLoop fuel control direction endBit n cursor accesses
      else some ⟨control, none, accesses⟩

/-- The last bit of a search. -/
def endBit (control : Control) (bit direction : Int) : Int :=
  let endBit := bit + searchWindow * direction
  if endBit < 0 then 0 else if control.size ≤ endBit then control.size - 1 else endBit

/-- The variables at the start of a search. -/
def startCursor (bit : Int) : Cursor where
  testBit := bit
  mapIndex := mapIndex bit
  mapOffset := mapOffset bit
  searchIndex := mapIndex (mapIndex bit)
  searchOffset := mapOffset (mapIndex bit)

/-- `rtems_rfs_search_map_for_clear_bit`. -/
def searchMapForClearBit (fuel : Nat) (control : Control) (bit direction : Int)
    (accesses : List Access) : Option Result :=
  searchLoop fuel control direction (endBit control bit direction) fuel (startCursor bit) accesses

/-- One search of an allocation, if the seed has not passed the map. -/
def searchFrom (fuel : Nat) (result : Result) (inMap : Bool) (seed direction : Int) :
    Option Result :=
  if inMap then searchMapForClearBit fuel result.control seed direction result.accesses
  else some result

/-- The loop of `rtems_rfs_bitmap_map_alloc`. -/
def allocLoop (fuel : Nat) : Nat → Int → Int → Result → Option Result
  | 0, _, _, _ => none
  | n + 1, upperSeed, lowerSeed, result =>
    let size : Int := result.control.size
    if (0 ≤ upperSeed ∧ upperSeed < size) ∨ (0 ≤ lowerSeed ∧ lowerSeed < size) then
      (searchFrom fuel result (upperSeed < size) upperSeed 1).bind fun result =>
        if result.bit.isSome then some result
        else (searchFrom fuel result (0 ≤ lowerSeed) lowerSeed (-1)).bind fun result =>
          if result.bit.isSome then some result
          else
            allocLoop fuel n
              (if upperSeed < size then upperSeed + searchWindow else upperSeed)
              (if 0 ≤ lowerSeed then lowerSeed - searchWindow else lowerSeed) result
    else some result

/-- `rtems_rfs_bitmap_map_alloc`. -/
def mapAlloc (fuel : Nat) (control : Control) (seed : Int) : Option Result :=
  allocLoop fuel fuel seed seed ⟨control, none, []⟩

/-- The number of clear bits below a limit. -/
def countClear (bits : Element) (available : Nat) : Nat :=
  ((List.range available).filter fun b => test bits b = false).length

/-- The loop of `rtems_rfs_bitmap_create_search`, with a bound on its iterations. The
result of `rtems_rfs_bitmap_set` is not stored there. -/
def createLoop : Nat → Nat → Int → Int → Nat → Control → Control
  | 0, _, _, _, _, control => control
  | n + 1, size, map, searchMap, bit, control =>
    if size = 0 then control
    else
      let bits := if size < 32 then merge (control.map map) elementSet (maskSection 0 size)
        else control.map map
      let available := if size < 32 then size else 32
      let control := if isMatch bits elementSet then control
        else { control with free := control.free + BitVec.ofNat 32 (countClear bits available) }
      if bit = 31 then
        createLoop n (size - available) (map + 1) (searchMap + 1) 0
          { control with
            searchBits := Function.update control.searchBits (searchMap + 1) elementClear }
      else createLoop n (size - available) (map + 1) searchMap (bit + 1) control

/-- `rtems_rfs_bitmap_create_search`. -/
def createSearch (control : Control) : Control :=
  createLoop control.size control.size 0 0 0
    { control with
      free := 0
      searchBits := Function.update control.searchBits 0 elementClear }

/-- `rtems_rfs_bitmap_open` with the contents of the map and of the new search memory. -/
def bitmapOpen (size : Nat) (map searchBits : Int → Element) : Control :=
  createSearch ⟨size, 0, map, searchBits⟩

/-- The operations on an open bitmap. -/
inductive Op
  | set (bit : Int)
  | clear (bit : Int)
  | alloc (seed : Int)

/-- One operation; a bit outside the map leaves it unchanged. -/
def step (fuel : Nat) (control : Control) : Op → Option Control
  | .set bit => some ((mapSet control bit).getD control)
  | .clear bit => some ((mapClear control bit).getD control)
  | .alloc seed => (mapAlloc fuel control seed).map Result.control

end Rtems.Rfs.Bitmap
