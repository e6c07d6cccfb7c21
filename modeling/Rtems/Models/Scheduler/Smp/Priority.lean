import Rtems.Models.Scheduler.Smp.TotalOrder
import Rtems.Models.Scheduler.Uniprocessor.Priority

/-!
# Deterministic priority SMP scheduler

The ready set is an array of chains, one for each priority, with the bit map of the
chains that are not empty. The first-in first-out insertion of this scheduler prepends
to the chain and the last-in first-out insertion appends to it.
-/

namespace Rtems.Scheduler.Smp.Priority

open Function

/-- `Scheduler_priority_SMP_Context` with the ready queues of the nodes. -/
structure Context (T : Type*) where
  queues : ReadyQueues T
  readyQueue : T → ReadyQueue

variable {T C : Type*} [DecidableEq T] [DecidableEq C]

/-- Replace the bit map and the chains. -/
def setQueues (s : State T C (Context T)) (queues : ReadyQueues T) : State T C (Context T) :=
  { s with context := { s.context with queues := queues } }

/-- `_Scheduler_priority_SMP_Get_highest_ready`. -/
def getHighestReady (s : State T C (Context T)) (_ : T) : Option T := s.context.queues.first

/-- `_Scheduler_priority_SMP_Insert_ready_lifo`. -/
def insertReadyLifo (s : State T C (Context T)) (n : T) : State T C (Context T) :=
  setQueues s (s.context.queues.enqueue n (s.context.readyQueue n))

/-- `_Scheduler_priority_SMP_Insert_ready_fifo`. -/
def insertReadyFifo (s : State T C (Context T)) (n : T) : State T C (Context T) :=
  setQueues s (s.context.queues.enqueueFirst n (s.context.readyQueue n))

/-- `_Scheduler_priority_SMP_Extract_from_ready`. -/
def extractFromReady (s : State T C (Context T)) (n : T) : State T C (Context T) :=
  setQueues s (s.context.queues.extract n (s.context.readyQueue n))

/-- `_Scheduler_priority_SMP_Move_from_scheduled_to_ready`. -/
def moveFromScheduledToReady (s : State T C (Context T)) (n : T) : State T C (Context T) :=
  let s := s.extractFromScheduled n
  setQueues s (s.context.queues.enqueueFirst n (s.context.readyQueue n))

/-- `_Scheduler_priority_SMP_Move_from_ready_to_scheduled`. -/
def moveFromReadyToScheduled (s : State T C (Context T)) (n : T) : State T C (Context T) :=
  insertScheduledFifo (extractFromReady s n) n

/-- `_Scheduler_priority_SMP_Do_update`. -/
def doUpdate (s : State T C (Context T)) (n : T) (newPriority : Nat) : State T C (Context T) :=
  { s.nodeUpdatePriority n newPriority with
    context := { s.context with
      readyQueue := Function.update s.context.readyQueue n (.update newPriority) } }

/-- The functions the deterministic scheduler passes to the shared operations. -/
def callbacks (isOwned : C → Bool) : Callbacks T C (Context T) where
  getHighestReady := getHighestReady
  getLowestScheduled := getLowestScheduled
  extractFromReady := extractFromReady
  insertReadyLifo := insertReadyLifo
  insertReadyFifo := insertReadyFifo
  moveFromScheduledToReady := moveFromScheduledToReady
  moveFromReadyToScheduled := moveFromReadyToScheduled
  doUpdate := doUpdate
  allocateProcessor := allocateProcessorLazy isOwned
  registerIdle s _ _ := s

/-- `_Scheduler_priority_SMP_Initialize` and the nodes of all threads. -/
def initialized (priority : T → Nat) : Context T where
  queues := .initialized
  readyQueue n := .update (priority n)

/-- Each chain lists the members of its priority once each, the bit map describes the
chains that are not empty, and every node names the chain of its priority. -/
structure Rep (priority : T → Nat) (context : Context T) (P : T → Prop) : Prop where
  readyQueue : ∀ u, context.readyQueue u = .update (priority u)
  priority_lt : ∀ u, priority u < 256
  holds : context.queues.Holds context.queues.ready
  mem_iff : ∀ p u, u ∈ context.queues.ready p ↔ P u ∧ priority u = p
  nodup : ∀ p, (context.queues.ready p).Nodup

section Laws

variable {priority : T → Nat} {context : Context T} {queues : ReadyQueues T} {P P' : T → Prop}
  {n : T} {l : List T}

section

variable (h : Rep priority context P)
include h

omit [DecidableEq T] in
/-- A new chain for one priority. -/
private theorem Rep.setChain
    (hq : queues.Holds (update context.queues.ready (priority n) l)) (hl : l.Nodup)
    (hmem : ∀ u, u ∈ l ↔ P' u ∧ priority u = priority n)
    (hP : ∀ u, priority u ≠ priority n → (P' u ↔ P u)) :
    Rep priority { context with queues := queues } P' where
  __ := h
  holds := by
    have hchain : queues.ready = update context.queues.ready (priority n) l :=
      funext hq.chain
    exact hchain ▸ hq
  mem_iff p u := by
    rw [hq.chain]
    by_cases hp : p = priority n
    · subst hp
      rw [update_self, hmem]
    · rw [update_of_ne hp, h.mem_iff]
      refine and_congr_left ?_
      rintro rfl
      exact (hP u hp).symm
  nodup p := by
    rw [hq.chain]
    by_cases hp : p = priority n
    · subst hp
      rwa [update_self]
    · rw [update_of_ne hp]
      exact h.nodup p

omit [DecidableEq T] in
/-- A chain with one member more. -/
private theorem Rep.addChain (hn : ¬P n)
    (hq : queues.Holds (update context.queues.ready (priority n) l))
    (hl : l.Perm (n :: context.queues.ready (priority n))) (hP : ∀ u, P' u ↔ u = n ∨ P u) :
    Rep priority { context with queues := queues } P' := by
  have hnmem : n ∉ context.queues.ready (priority n) := by
    rw [h.mem_iff]
    exact fun hcon => hn hcon.1
  refine h.setChain hq (hl.nodup_iff.mpr (List.nodup_cons.mpr ⟨hnmem, h.nodup _⟩)) ?_ ?_
  · intro u
    rw [hl.mem_iff, List.mem_cons, h.mem_iff, hP]
    by_cases hu : u = n
    · simp [hu]
    · simp [hu]
  · intro u hu
    have hun : u ≠ n := by
      rintro rfl
      exact hu rfl
    simp [hP, hun]

omit [DecidableEq T] in
private theorem Rep.enqueue (hn : ¬P n) (hP : ∀ u, P' u ↔ u = n ∨ P u) :
    Rep priority { context with
      queues := context.queues.enqueue n (context.readyQueue n) } P' := by
  rw [h.readyQueue]
  exact h.addChain hn (h.holds.enqueue (h.priority_lt n) n) List.perm_append_comm hP

omit [DecidableEq T] in
private theorem Rep.enqueueFirst (hn : ¬P n) (hP : ∀ u, P' u ↔ u = n ∨ P u) :
    Rep priority { context with
      queues := context.queues.enqueueFirst n (context.readyQueue n) } P' := by
  rw [h.readyQueue]
  exact h.addChain hn (h.holds.enqueueFirst (h.priority_lt n) n) (.refl _) hP

private theorem Rep.extract (hn : P n) (hP : ∀ u, P' u ↔ u ≠ n ∧ P u) :
    Rep priority { context with
      queues := context.queues.extract n (context.readyQueue n) } P' := by
  rw [h.readyQueue]
  have hmem : n ∈ context.queues.ready (priority n) := (h.mem_iff _ n).mpr ⟨hn, rfl⟩
  refine h.setChain (h.holds.extract (h.priority_lt n) hmem) ((h.nodup _).erase n) ?_ ?_
  · intro u
    rw [(h.nodup _).mem_erase_iff, h.mem_iff, hP, and_assoc]
  · intro u hu
    have hun : u ≠ n := by
      rintro rfl
      exact hu rfl
    simp [hP, hun]

omit [DecidableEq T] in
/-- The first node of the bit map is a member of best priority. -/
private theorem Rep.first {u : T} (hu : P u) :
    ∃ q, context.queues.first = some q ∧ P q ∧ ∀ v, P v → priority q ≤ priority v := by
  have hne : ∀ v, P v → context.queues.ready (priority v) ≠ [] := fun v hv =>
    List.ne_nil_of_mem ((h.mem_iff _ v).mpr ⟨hv, rfl⟩)
  obtain ⟨hset, -⟩ := h.holds.bitMap.getHighest_isLeast (h.priority_lt u) (hne u hu)
  obtain ⟨q, rest, hq⟩ := List.exists_cons_of_ne_nil hset
  have hmem : q ∈ context.queues.ready context.queues.bitMap.getHighest := by simp [hq]
  obtain ⟨hPq, hpq⟩ := (h.mem_iff _ q).mp hmem
  refine ⟨q, by simp [ReadyQueues.first, hq], hPq, ?_⟩
  intro v hv
  rw [hpq]
  exact (h.holds.bitMap.getHighest_isLeast (h.priority_lt v) (hne v hv)).2

end

/-- The deterministic scheduler satisfies the laws of the ready set. -/
theorem laws (isOwned : C → Bool) {maximumPriority : Nat} (hmax : maximumPriority ≤ 255) :
    ReadyLaws (callbacks isOwned : Callbacks T C (Context T)) isOwned maximumPriority Rep where
  getHighestReady := by
    rintro s P n h ⟨u, hu⟩
    exact h.first hu
  getLowestScheduled _ _ := rfl
  extractFromReady := by
    intro s P n h hn
    exact ⟨_, rfl, fun P' hP' => h.extract hn hP'⟩
  insertReadyLifo := by
    intro s P n h hn
    exact ⟨_, rfl, fun P' hP' => h.enqueue hn hP'⟩
  insertReadyFifo := by
    intro s P n h hn
    exact ⟨_, rfl, fun P' hP' => h.enqueueFirst hn hP'⟩
  moveFromScheduledToReady := by
    intro s P n h hn
    exact ⟨_, rfl, fun P' hP' => h.enqueueFirst hn hP'⟩
  moveFromReadyToScheduled := by
    intro s P n h hn
    exact ⟨_, rfl, fun P' hP' => h.extract hn hP'⟩
  doUpdate := by
    intro s P n p h hn hp
    have hpriority := fun u (hu : u ≠ n) => s.priority_nodeUpdatePriority n hu p
    have hself : (s.nodeUpdatePriority n p).priority n = p := by
      simp [State.priority, State.nodeUpdatePriority, State.setNode]
    refine ⟨_, rfl, ?_, ?_, h.holds, ?_, h.nodup⟩
    · intro u
      by_cases hu : u = n
      · subst hu
        simp [hself]
      · simp [hu, hpriority u hu, h.readyQueue]
    · intro u
      by_cases hu : u = n
      · subst hu
        omega
      · rw [hpriority u hu]
        exact h.priority_lt u
    · intro q u
      rw [h.mem_iff]
      by_cases hu : u = n
      · subst hu
        simp [hn]
      · rw [hpriority u hu]
  allocateProcessor := rfl
  registerIdle _ _ _ := rfl

end Laws

end Rtems.Scheduler.Smp.Priority
