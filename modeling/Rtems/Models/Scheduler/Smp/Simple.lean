import Rtems.Models.Scheduler.Smp.TotalOrder

/-!
# Simple SMP scheduler

The ready set is one chain ordered by priority.
-/

namespace Rtems.Scheduler.Smp.Simple

variable {T C : Type*} [DecidableEq T] [DecidableEq C]

/-- `_Scheduler_simple_SMP_Get_highest_ready`. -/
def getHighestReady (s : State T C (List T)) (_ : T) : Option T := s.context.head?

/-- `_Scheduler_simple_SMP_Insert_ready_lifo`. -/
def insertReadyLifo (s : State T C (List T)) (n : T) : State T C (List T) :=
  { s with
    context := insertBefore
      (fun next => insertPriorityLifoOrder (s.priority n) (s.priority next)) n s.context }

/-- `_Scheduler_simple_SMP_Insert_ready_fifo`. -/
def insertReadyFifo (s : State T C (List T)) (n : T) : State T C (List T) :=
  { s with
    context := insertBefore
      (fun next => insertPriorityFifoOrder (s.priority n) (s.priority next)) n s.context }

/-- `_Scheduler_simple_SMP_Extract_from_ready`. -/
def extractFromReady (s : State T C (List T)) (n : T) : State T C (List T) :=
  { s with context := s.context.erase n }

/-- `_Scheduler_simple_SMP_Move_from_scheduled_to_ready`. -/
def moveFromScheduledToReady (s : State T C (List T)) (n : T) : State T C (List T) :=
  insertReadyLifo (s.extractFromScheduled n) n

/-- `_Scheduler_simple_SMP_Move_from_ready_to_scheduled`. -/
def moveFromReadyToScheduled (s : State T C (List T)) (n : T) : State T C (List T) :=
  insertScheduledFifo (extractFromReady s n) n

/-- `_Scheduler_simple_SMP_Do_update`. -/
def doUpdate (s : State T C (List T)) (n : T) (newPriority : Nat) : State T C (List T) :=
  s.nodeUpdatePriority n newPriority

/-- The functions the simple scheduler passes to the shared operations. -/
def callbacks (isOwned : C → Bool) : Callbacks T C (List T) where
  getHighestReady := getHighestReady
  getLowestScheduled := getLowestScheduled
  extractFromReady := extractFromReady
  insertReadyLifo := insertReadyLifo
  insertReadyFifo := insertReadyFifo
  moveFromScheduledToReady := moveFromScheduledToReady
  moveFromReadyToScheduled := moveFromReadyToScheduled
  doUpdate := doUpdate
  allocateProcessor := allocateProcessorLazy isOwned
  registerIdle s _ _ := s

/-- The chain lists the members once each, ordered by priority. -/
structure Rep (priority : T → Nat) (ready : List T) (P : T → Prop) : Prop where
  nodup : ready.Nodup
  mem_iff : ∀ u, u ∈ ready ↔ P u
  sorted : SortedBy priority ready

section Laws

variable {priority : T → Nat} {ready : List T} {P P' : T → Prop} {n : T}

omit [DecidableEq T] in
/-- Insertion at a place that keeps the order. -/
private theorem Rep.insert (h : Rep priority ready P) (hn : ¬P n) {before : T → Bool}
    (hs : SortedBy priority (insertBefore before n ready)) (hP : ∀ u, P' u ↔ u = n ∨ P u) :
    Rep priority (insertBefore before n ready) P' where
  nodup := nodup_insertBefore (by rwa [h.mem_iff]) h.nodup
  mem_iff u := by rw [mem_insertBefore, h.mem_iff, hP]
  sorted := hs

private theorem Rep.erase (h : Rep priority ready P) (hP : ∀ u, P' u ↔ u ≠ n ∧ P u) :
    Rep priority (ready.erase n) P' where
  nodup := h.nodup.erase n
  mem_iff u := by rw [h.nodup.mem_erase_iff, h.mem_iff, hP]
  sorted := h.sorted.erase n

/-- The simple scheduler satisfies the laws of the ready set. -/
theorem laws (isOwned : C → Bool) (maximumPriority : Nat) :
    ReadyLaws (callbacks isOwned : Callbacks T C (List T)) isOwned maximumPriority Rep where
  getHighestReady := by
    rintro s P n h ⟨u, hu⟩
    have hmem := (h.mem_iff u).mpr hu
    cases hready : s.context with
    | nil => simp [hready] at hmem
    | cons first rest =>
      refine ⟨first, by simp [callbacks, getHighestReady, hready],
        (h.mem_iff first).mp (by simp [hready]), ?_⟩
      intro v hv
      have hv' := (h.mem_iff v).mpr hv
      have hsorted := h.sorted
      rw [hready] at hsorted hv'
      exact hsorted.head_le hv'
  getLowestScheduled _ _ := rfl
  extractFromReady := by
    intro s P n h _
    exact ⟨_, rfl, fun P' hP' => h.erase hP'⟩
  insertReadyLifo := by
    intro s P n h hn
    exact ⟨_, rfl, fun P' hP' => h.insert hn h.sorted.insert_lifo hP'⟩
  insertReadyFifo := by
    intro s P n h hn
    exact ⟨_, rfl, fun P' hP' => h.insert hn h.sorted.insert_fifo hP'⟩
  moveFromScheduledToReady := by
    intro s P n h hn
    exact ⟨_, rfl, fun P' hP' => h.insert hn h.sorted.insert_lifo hP'⟩
  moveFromReadyToScheduled := by
    intro s P n h _
    exact ⟨_, rfl, fun P' hP' => h.erase hP'⟩
  doUpdate := by
    intro s P n p h hn _
    refine ⟨s.context, rfl, h.nodup, h.mem_iff, h.sorted.congr ?_⟩
    intro u hu
    have hun : u ≠ n := by
      rintro rfl
      exact hn ((h.mem_iff u).mp hu)
    simp [State.priority, State.nodeUpdatePriority, State.setNode, hun]
  allocateProcessor := rfl
  registerIdle _ _ _ := rfl

end Laws

end Rtems.Scheduler.Smp.Simple
