import Rtems.Models.Objects.Tables

/-!
# Iteration over the objects of a class

`_Objects_Get_next` counts identifiers up from the least one of the class, until the index part
is greater than the maximum.
-/

namespace Rtems.Objects

variable {K : Type} {info : Information K}

/-- `_Objects_Get_no_protection`, the look-up of `_Objects_Get`. -/
def getNoProtection (info : Information K) (id : Id) : Option (Control K) := objectsGet info id

/-- The loop of `_Objects_Get_next`, with the identifier it stores; absent if `fuel` rounds do
not end it. -/
def getNextLoop (info : Information K) : Nat → Id → Option (Option (Control K) × Id)
  | 0, _ => none
  | fuel + 1, nextId =>
    if info.maximum < getIndex nextId then some (none, .allOnes 32)
    else
      match getNoProtection info nextId with
      | some o => some (some o, nextId + 1)
      | none => getNextLoop info fuel (nextId + 1)

/-- `_Objects_Get_next`. -/
def getNext (info : Information K) (fuel : Nat) (id : Id) : Option (Option (Control K) × Id) :=
  getNextLoop info fuel (if getIndex id = 0 then info.minimumId else id)

/-- The objects of a caller that passes the stored identifier back until it gets `NULL`. -/
def visited (info : Information K) (fuel : Nat) : Nat → Id → Option (List (Control K))
  | 0, _ => none
  | calls + 1, id =>
    match getNext info fuel id with
    | none => none
    | some (none, _) => some []
    | some (some o, nextId) => (visited info fuel calls nextId).map (o :: ·)

theorem idOf_succ {i : Nat} (h : i < finalIndex) : info.idOf i + 1 = info.idOf (i + 1) := by
  have hindex : (BitVec.ofNat 16 i).setWidth 32 + 1 = (BitVec.ofNat 16 (i + 1)).setWidth 32 := by
    unfold finalIndex at h
    bv_omega
  rw [Information.idOf, Information.idOf, buildId_eq_add, buildId_eq_add, BitVec.add_assoc, hindex]

section

variable (hmin : info.minimumId = info.idOf 1) (hmax : info.maximum < finalIndex)
include hmin hmax

/-- The loop stops at the next active object, or past the last one. -/
theorem getNextLoop_eq {i k fuel : Nat} (hk : i + k = info.maximum + 1) (hfuel : k < fuel) :
    (List.range' i k).filterMap info.tables.localTable = [] ∧
        getNextLoop info fuel (info.idOf i) = some (none, .allOnes 32) ∨
      ∃ o j l, (List.range' i k).filterMap info.tables.localTable =
          o :: (List.range' j l).filterMap info.tables.localTable ∧
        i < j ∧ j + l = info.maximum + 1 ∧
        getNextLoop info fuel (info.idOf i) = some (some o, info.idOf j) := by
  induction k generalizing i fuel with
  | zero =>
    obtain ⟨fuel, rfl⟩ := Nat.exists_eq_add_of_lt hfuel
    rw [getNextLoop, getIndex_idOf info (by omega), if_pos (by omega)]
    exact .inl ⟨rfl, rfl⟩
  | succ k ih =>
    obtain ⟨m, rfl⟩ := Nat.exists_eq_add_of_lt hfuel
    have hlookup : getNoProtection info (info.idOf i) = info.tables.localTable i := by
      rw [getNoProtection, objectsGet, hmin, lookup_position info (by omega), if_pos (by omega)]
    rw [getNextLoop, getIndex_idOf info (by omega), if_neg (by omega), hlookup,
      idOf_succ (by omega), List.range'_succ, List.filterMap_cons]
    cases info.tables.localTable i with
    | some o => exact .inr ⟨o, i + 1, k, rfl, by omega, by omega, rfl⟩
    | none =>
      obtain hnone | ⟨o, j, l, hsome, hj, hrest⟩ := @ih (i + 1) (k + 1 + m) (by omega) (by omega)
      · exact .inl hnone
      · exact .inr ⟨o, j, l, hsome, by omega, hrest⟩

/-- The calls give the active objects from the index of the first round on. -/
theorem visited_eq {i k fuel calls : Nat} {id : Id} (hi : i + k = info.maximum + 1) (hpos : 0 < i)
    (hid : (if getIndex id = 0 then info.minimumId else id) = info.idOf i)
    (hfuel : info.maximum < fuel) (hcalls : k < calls) :
    visited info fuel calls id =
      some ((List.range' i k).filterMap info.tables.localTable) := by
  induction calls generalizing i k id with
  | zero => omega
  | succ calls ih =>
    rw [visited, getNext, hid]
    obtain ⟨hnil, hloop⟩ | ⟨o, j, l, hcons, hj, hl, hloop⟩ :=
      getNextLoop_eq hmin hmax hi (show k < fuel by omega)
    · rw [hloop, hnil]
    · have hindex : getIndex (info.idOf j) = j := getIndex_idOf info (by omega)
      rw [hloop, hcons]
      dsimp only
      rw [ih hl (by omega) (if_neg (by omega)) (by omega), Option.map_some]

end

/-- Below the greatest index of an identifier, the calls give every active object once by
ascending index, and then `NULL`. -/
theorem visited_of_lt {fuel : Nat} {id : Id} (hid : getIndex id = 0)
    (hmin : info.minimumId = info.idOf (min 1 info.maximum)) (hmax : info.maximum < finalIndex)
    (hfuel : info.maximum + 1 < fuel) :
    visited info fuel fuel id =
      some ((List.range' 1 info.maximum).filterMap info.tables.localTable) := by
  rcases Nat.eq_zero_or_pos info.maximum with hzero | hpos
  · obtain ⟨fuel, rfl⟩ := Nat.exists_eq_add_of_le' hfuel
    have hone : info.idOf 0 + 1#32 = info.idOf 1 := idOf_succ (by decide)
    rw [hzero] at hmin
    simp [visited, getNext, getNextLoop, getNoProtection, objectsGet, hid, hmin, hzero, hone,
      getIndex_idOf info (Nat.zero_le _),
      getIndex_idOf info (show 1 ≤ finalIndex by decide)]
  · rw [Nat.min_eq_left hpos] at hmin
    exact visited_eq hmin hmax (by omega) one_pos (by rw [if_pos hid, hmin]) (by omega) (by omega)

theorem getIndex_le (id : Id) : getIndex id ≤ finalIndex :=
  Nat.and_le_right

/-- No index is greater than the greatest one, so the loop never gives `NULL`. -/
theorem getNextLoop_ne_null (hmax : finalIndex ≤ info.maximum) (fuel : Nat) (id nextId : Id) :
    getNextLoop info fuel id ≠ some (none, nextId) := by
  induction fuel generalizing id with
  | zero => exact fun h => by cases h
  | succ fuel ih =>
    have hindex : ¬info.maximum < getIndex id := Nat.not_lt.mpr ((getIndex_le id).trans hmax)
    rw [getNextLoop, if_neg hindex]
    cases getNoProtection info id with
    | some o => exact fun h => by cases h
    | none => exact ih (id + 1)

/-- The calls of a class with the greatest maximum never end. -/
theorem visited_eq_none (hmax : finalIndex ≤ info.maximum) (fuel calls : Nat) (id : Id) :
    visited info fuel calls id = none := by
  induction calls generalizing id with
  | zero => rfl
  | succ calls ih =>
    rw [visited]
    cases hnext : getNext info fuel id with
    | none => rfl
    | some r =>
      obtain ⟨o, nextId⟩ := r
      cases o with
      | none => exact absurd hnext (getNextLoop_ne_null hmax _ _ _)
      | some o => simp only [ih, Option.map_none]

/-- The calls give every active object once by ascending index and then `NULL` if and only if the
maximum is below the greatest index of an identifier; otherwise they never give `NULL`. -/
theorem visited_all {id : Id} (hid : getIndex id = 0)
    (hmin : info.minimumId = info.idOf (min 1 info.maximum)) :
    ((∀ fuel, info.maximum + 1 < fuel → visited info fuel fuel id =
        some ((List.range' 1 info.maximum).filterMap info.tables.localTable)) ↔
      info.maximum < finalIndex) ∧
    ∀ fuel calls objects, visited info fuel calls id = some objects →
      info.maximum < finalIndex := by
  have hends : ∀ fuel calls objects, visited info fuel calls id = some objects →
      info.maximum < finalIndex := by
    intro fuel calls objects h
    by_contra hge
    rw [visited_eq_none (Nat.le_of_not_lt hge)] at h
    cases h
  refine ⟨⟨fun hall => ?_, fun hmax _ hfuel => visited_of_lt hid hmin hmax hfuel⟩, hends⟩
  exact hends _ _ _ (hall (info.maximum + 2) (by omega))

/-- A class with the given active objects. -/
def classOf (maximum : Nat) (active : Nat → Option (Control Unit)) : Information Unit :=
  { emptyInformation ⟨2, 1, 1, 8, Nat.succ_pos 7, 3, by decide, false⟩ with
    maximum, tables := ⟨fun _ => none, fun _ => 0, active⟩ }

/-- Two active objects of three. -/
theorem visited_all_three :
    visited (classOf 3 fun i => if i = 2 then none else some ⟨(), i⟩) 5 5 0 =
      some [⟨(), 1⟩, ⟨(), 3⟩] :=
  (visited_all (by decide) rfl).1.mpr (by decide) 5 (by decide)

/-- The class with the greatest maximum, all its objects active. -/
def fullClass : Information Unit := classOf finalIndex fun i => some ⟨(), i⟩

/-- The identifier stored with the last object leads to the first one again. -/
theorem getNext_starts_again :
    fullClass.idOf 0xffff = 0x0a01ffff ∧
      getNext fullClass 1 0x0a01fffe = some (some ⟨(), 0xfffe⟩, 0x0a01ffff) ∧
      getNext fullClass 1 0x0a01ffff = some (some ⟨(), 0xffff⟩, 0x0a020000) ∧
      getNext fullClass 1 0x0a020000 = some (some ⟨(), 1⟩, 0x0a010002) := by
  decide

end Rtems.Objects
