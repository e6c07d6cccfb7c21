import Rtems.Core.OrderedList
import Rtems.Models.Scheduler.Uniprocessor.State

/-!
# Simple priority scheduler

One chain of ready threads, ordered by priority. A new thread is placed after or
before the threads of equal priority.
-/

namespace Rtems.Scheduler.Uniprocessor.Simple

open Function

variable {T : Type*} [DecidableEq T]

/-- `_Scheduler_simple_Insert_priority_lifo`. -/
def insertPriorityLifo (s : State T (List T)) (toInsert : T) : State T (List T) :=
  { s with
    context := insertBefore (fun next => decide (s.priority toInsert ≤ s.priority next))
      toInsert s.context }

/-- `_Scheduler_simple_Insert_priority_fifo`. -/
def insertPriorityFifo (s : State T (List T)) (toInsert : T) : State T (List T) :=
  { s with
    context := insertBefore (fun next => decide (s.priority toInsert < s.priority next))
      toInsert s.context }

/-- `_Scheduler_simple_Extract`. -/
def extract (s : State T (List T)) (t : T) : State T (List T) :=
  { s with context := s.context.erase t }

/-- `_Scheduler_simple_Schedule_body`. -/
def scheduleBody (s : State T (List T)) (forceDispatch : Bool) : Option (State T (List T)) :=
  s.context.head?.map fun heir => updateHeir s heir forceDispatch

/-- `_Scheduler_simple_Schedule`. -/
def schedule (s : State T (List T)) (_ : T) : Option (State T (List T)) := scheduleBody s false

/-- `_Scheduler_simple_Block`. -/
def block (s : State T (List T)) (t : T) : Option (State T (List T)) :=
  genericBlock extract scheduleBody s t

/-- `_Scheduler_simple_Unblock`. -/
def unblock (s : State T (List T)) (t : T) : Option (State T (List T)) :=
  let s := insertPriorityFifo s t
  let priority := s.priority t
  if priority < s.priority s.cpu.heir then
    some (updateHeir s t (decide (priority = priorityPseudoIsr)))
  else some s

/-- `_Scheduler_simple_Update_priority`: the thread is placed anew in any case. -/
def updatePriority (s : State T (List T)) (t : T) : Option (State T (List T)) :=
  if (s.thread t).isReady then
    let prependIt := (s.thread t).prependIt
    let s := extract s t
    let s := if prependIt then insertPriorityLifo s t else insertPriorityFifo s t
    scheduleBody s false
  else some s

/-- `_Scheduler_simple_Yield`: the new heir is not forced. -/
def yield (s : State T (List T)) (t : T) : Option (State T (List T)) :=
  let s := extract s t
  let s := insertPriorityFifo s t
  scheduleBody s false

/-- `SCHEDULER_SIMPLE_ENTRY_POINTS`. -/
def operations : Operations T (List T) :=
  ⟨schedule, yield, block, unblock, updatePriority⟩

/-- `_Scheduler_simple_Initialize`. -/
def initialized : List T := []

theorem unblock_eq (s : State T (List T)) (t : T) :
    unblock s t =
      if s.priority t < s.priority s.cpu.heir then
        some (updateHeir (insertPriorityFifo s t) t (decide (s.priority t = priorityPseudoIsr)))
      else some (insertPriorityFifo s t) :=
  rfl

/-- The ready threads of one priority, in chain order. -/
def group (thread : T → Thread) (ready : List T) (p : Nat) : List T :=
  ready.filter fun t => (thread t).priority = p

/-- The chain holds exactly the ready threads, once each, ordered by priority. -/
structure Ordered (maximumPriority : Nat) (thread : T → Thread) (ready : List T) : Prop where
  nodup : ready.Nodup
  mem_iff : ∀ t, t ∈ ready ↔ (thread t).isReady = true
  sorted : SortedBy (fun t => (thread t).priority) ready
  value_eq : ∀ t, (thread t).value = (thread t).priority
  le_maximum : ∀ t, (thread t).priority ≤ maximumPriority

variable {maximumPriority : Nat} {thread : T → Thread} {ready : List T} {t : T} {x : Thread}

omit [DecidableEq T] in
theorem Ordered.valid (h : Ordered maximumPriority thread ready) (t : T) :
    Thread.Valid maximumPriority (thread t) :=
  ⟨h.value_eq t, h.le_maximum t⟩

private theorem sorted_update (h : SortedBy (fun u => (thread u).priority) ready) (ht : t ∉ ready) :
    SortedBy (fun u => (update thread t x u).priority) ready := by
  refine h.congr ?_
  intro u hu
  have hut : u ≠ t := by
    rintro rfl
    exact ht hu
  simp [hut]

section

variable (h : Ordered maximumPriority thread ready)
include h

private theorem valid_update (hx : Thread.Valid maximumPriority x) (u : T) :
    Thread.Valid maximumPriority (update thread t x u) := by
  by_cases hut : u = t
  · subst hut
    simpa using hx
  · simpa [hut] using h.valid u

/-- Extraction of a thread that is no longer ready. -/
theorem Ordered.erase (hr : x.isReady = false) (hx : Thread.Valid maximumPriority x) :
    Ordered maximumPriority (update thread t x) (ready.erase t) where
  nodup := h.nodup.erase t
  mem_iff u := by
    by_cases hut : u = t
    · subst hut
      simp [h.nodup.mem_erase_iff, hr]
    · simp [h.nodup.mem_erase_iff, hut, h.mem_iff]
  sorted := sorted_update (h.sorted.erase t) h.nodup.not_mem_erase
  value_eq u := (valid_update h hx u).1
  le_maximum u := (valid_update h hx u).2

section

variable (ht : t ∉ ready) (hr : x.isReady = true) (hx : Thread.Valid maximumPriority x)
include ht hr hx

/-- Insertion of a thread that becomes ready, with the chain sorted afterwards. -/
private theorem Ordered.insert {before : T → Bool}
    (hs : SortedBy (fun u => (update thread t x u).priority)
      (insertBefore before t ready)) :
    Ordered maximumPriority (update thread t x) (insertBefore before t ready) where
  nodup := nodup_insertBefore ht h.nodup
  mem_iff u := by
    by_cases hut : u = t
    · subst hut
      simp [hr]
    · simp [hut, h.mem_iff]
  sorted := hs
  value_eq u := (valid_update h hx u).1
  le_maximum u := (valid_update h hx u).2

theorem Ordered.insertFifo :
    Ordered maximumPriority (update thread t x) (insertBefore (fun next =>
      decide ((update thread t x t).priority < (update thread t x next).priority))
      t ready) :=
  h.insert ht hr hx (sorted_update h.sorted ht).insert_fifo

theorem Ordered.insertLifo :
    Ordered maximumPriority (update thread t x) (insertBefore (fun next =>
      decide ((update thread t x t).priority ≤ (update thread t x next).priority))
      t ready) :=
  h.insert ht hr hx (sorted_update h.sorted ht).insert_lifo

end

end

private theorem group_update (ht : t ∉ ready) (thread : T → Thread) (x : Thread) (p : Nat) :
    group (update thread t x) ready p = group thread ready p := by
  refine List.filter_congr ?_
  intro u hu
  have hut : u ≠ t := by
    rintro rfl
    exact ht hu
  simp [hut]

/-- Extraction alone, with the fields of the thread unchanged. -/
private theorem group_erase_self :
    group thread (ready.erase t) =
      update (group thread ready) (thread t).priority
        ((group thread ready (thread t).priority).erase t) := by
  funext p
  rw [group, ← List.erase_filter]
  by_cases hp : p = (thread t).priority
  · subst hp
    simp [group]
  · rw [update_of_ne hp, group]
    refine List.erase_of_not_mem ?_
    simp [Ne.symm hp]

theorem group_erase (h : ready.Nodup) :
    group (update thread t x) (ready.erase t) =
      update (group thread ready) (thread t).priority
        ((group thread ready (thread t).priority).erase t) := by
  rw [← group_erase_self]
  funext p
  exact group_update h.not_mem_erase thread x p

section

variable (h : SortedBy (fun u => (thread u).priority) ready) (ht : t ∉ ready)
include h ht

/-- Insertion after the threads of equal priority appends to the group. -/
theorem group_insertFifo :
    group (update thread t x) (insertBefore (fun next =>
      decide ((update thread t x t).priority < (update thread t x next).priority))
      t ready) =
      update (group thread ready) x.priority (group thread ready x.priority ++ [t]) := by
  funext p
  have hf := filter_insert_fifo (x := t) (sorted_update (x := x) h ht) p
  rw [group, hf, ← group, group_update ht]
  by_cases hp : p = x.priority
  · subst hp
    simp
  · simp [Ne.symm hp, hp]

/-- Insertion before the threads of equal priority prepends to the group. -/
theorem group_insertLifo :
    group (update thread t x) (insertBefore (fun next =>
      decide ((update thread t x t).priority ≤ (update thread t x next).priority))
      t ready) =
      update (group thread ready) x.priority (t :: group thread ready x.priority) := by
  funext p
  have hf := filter_insert_lifo (x := t) (sorted_update (x := x) h ht) p
  rw [group, hf, ← group, group_update ht]
  by_cases hp : p = x.priority
  · subst hp
    simp
  · simp [Ne.symm hp, hp]

end

section

variable (h : Ordered maximumPriority thread ready) (hx : x.priority = (thread t).priority)
include h hx

theorem group_reinsertFifo :
    group (update thread t x) (insertBefore (fun next =>
      decide ((update thread t x t).priority < (update thread t x next).priority))
      t (ready.erase t)) =
      update (group thread ready) (thread t).priority
        ((group thread ready (thread t).priority).erase t ++ [t]) := by
  rw [group_insertFifo (h.sorted.erase t) h.nodup.not_mem_erase, group_erase_self, hx]
  simp

theorem group_reinsertLifo :
    group (update thread t x) (insertBefore (fun next =>
      decide ((update thread t x t).priority ≤ (update thread t x next).priority))
      t (ready.erase t)) =
      update (group thread ready) (thread t).priority
        (t :: (group thread ready (thread t).priority).erase t) := by
  rw [group_insertLifo (h.sorted.erase t) h.nodup.not_mem_erase, group_erase_self, hx]
  simp

end

end Rtems.Scheduler.Uniprocessor.Simple
