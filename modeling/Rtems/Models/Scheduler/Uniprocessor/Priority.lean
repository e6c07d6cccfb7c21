import Rtems.Core.OrderedList
import Rtems.Models.Scheduler.BitMap
import Rtems.Models.Scheduler.Uniprocessor.State

/-!
# Deterministic priority scheduler

One first-in first-out chain for each priority and a bit map of the priorities
whose chain is not empty. A node caches its priority, its chain and its masks.
-/

namespace Rtems.Scheduler

/-- `Scheduler_priority_Ready_queue`: `readyChain` is the index into the ready array. -/
structure ReadyQueue where
  currentPriority : Nat
  readyChain : Nat
  priorityMap : BitMapInformation
  deriving DecidableEq

/-- `_Scheduler_priority_Ready_queue_update`. -/
def ReadyQueue.update (newPriority : Nat) : ReadyQueue where
  currentPriority := newPriority
  readyChain := newPriority
  priorityMap := initializeInformation newPriority

@[simp] theorem ReadyQueue.currentPriority_update (p : Nat) :
    (ReadyQueue.update p).currentPriority = p := rfl

@[simp] theorem ReadyQueue.readyChain_update (p : Nat) :
    (ReadyQueue.update p).readyChain = p := rfl

@[simp] theorem ReadyQueue.priorityMap_update (p : Nat) :
    (ReadyQueue.update p).priorityMap = initializeInformation p := rfl

/-- The bit map and the ready chains, with nodes of type `T`. -/
structure ReadyQueues (T : Type*) where
  bitMap : BitMap
  ready : Nat → List T

namespace ReadyQueues

variable {T : Type*}

/-- `_Scheduler_priority_Ready_queue_initialize` with a zero bit map. -/
def initialized : ReadyQueues T := ⟨BitMap.initialized, fun _ => []⟩

/-- `_Scheduler_priority_Ready_queue_enqueue`. -/
def enqueue (q : ReadyQueues T) (t : T) (rq : ReadyQueue) : ReadyQueues T where
  ready := Function.update q.ready rq.readyChain (q.ready rq.readyChain ++ [t])
  bitMap := q.bitMap.add rq.priorityMap

/-- `_Scheduler_priority_Ready_queue_enqueue_first`. -/
def enqueueFirst (q : ReadyQueues T) (t : T) (rq : ReadyQueue) : ReadyQueues T where
  ready := Function.update q.ready rq.readyChain (t :: q.ready rq.readyChain)
  bitMap := q.bitMap.add rq.priorityMap

/-- `_Scheduler_priority_Ready_queue_extract`: the bit goes with the only node. -/
def extract [DecidableEq T] (q : ReadyQueues T) (t : T) (rq : ReadyQueue) : ReadyQueues T :=
  if (q.ready rq.readyChain).length = 1 then
    { ready := Function.update q.ready rq.readyChain []
      bitMap := q.bitMap.remove rq.priorityMap }
  else { q with ready := Function.update q.ready rq.readyChain ((q.ready rq.readyChain).erase t) }

/-- `_Scheduler_priority_Ready_queue_first`. -/
def first (q : ReadyQueues T) : Option T := (q.ready q.bitMap.getHighest).head?

/-- The rotation of `_Scheduler_priority_Yield`. -/
def rotate [DecidableEq T] (q : ReadyQueues T) (t : T) (rq : ReadyQueue) : ReadyQueues T :=
  if (q.ready rq.readyChain).length = 1 then q
  else { q with
    ready := Function.update q.ready rq.readyChain ((q.ready rq.readyChain).erase t ++ [t]) }

/-- The queues hold the sorted groups `group p`: each chain is its group and the bit
map describes the groups that are not empty. -/
structure Holds (q : ReadyQueues T) (group : Nat → List T) : Prop where
  chain : ∀ p, q.ready p = group p
  bitMap : q.bitMap.Represents fun p => group p ≠ []

theorem holds_initialized : (initialized : ReadyQueues T).Holds fun _ => [] where
  chain _ := rfl
  bitMap := by simpa [initialized] using BitMap.represents_initialized

private theorem represents_congr {m : BitMap} {P P' : Nat → Prop} (h : m.Represents P)
    (hP : ∀ p < 256, P p ↔ P' p) : m.Represents P' where
  minor_iff p hp := (h.minor_iff p hp).trans (hP p hp)
  major_iff := h.major_iff

section

variable {q : ReadyQueues T} {p : Nat}

section

variable {group : Nat → List T} (h : q.Holds group)
include h

/-- One group is replaced, and the bit map describes whether the new one is empty. -/
private theorem Holds.set {m : BitMap} {P : Nat → Prop} {l : List T} (hm : m.Represents P)
    (hself : P p ↔ l ≠ []) (hother : ∀ p' ≠ p, P p' ↔ group p' ≠ []) :
    (⟨m, Function.update q.ready p l⟩ : ReadyQueues T).Holds (Function.update group p l) where
  chain p' := by
    by_cases hpp : p' = p
    · subst hpp; simp
    · simp [hpp, h.chain]
  bitMap := by
    refine represents_congr hm ?_
    intro p' _
    by_cases hpp : p' = p
    · subst hpp; simpa using hself
    · simpa [hpp] using hother p' hpp

private theorem Holds.replace {l : List T} (hl : l ≠ []) (hne : q.ready p ≠ []) :
    ({ q with ready := Function.update q.ready p l } : ReadyQueues T).Holds
      (Function.update group p l) := by
  rw [h.chain] at hne
  exact h.set h.bitMap (iff_of_true hne hl) fun _ _ => Iff.rfl

variable (hp : p < 256)
include hp

private theorem Holds.add {l : List T} (hl : l ≠ []) :
    (⟨q.bitMap.add (initializeInformation p), Function.update q.ready p l⟩ : ReadyQueues T).Holds
      (Function.update group p l) :=
  h.set (h.bitMap.add hp) (by simp [hl]) fun p' hpp => by simp [hpp]

theorem Holds.enqueue (t : T) :
    (q.enqueue t (.update p)).Holds (Function.update group p (group p ++ [t])) := by
  rw [← h.chain p]
  exact h.add hp (by simp)

theorem Holds.enqueueFirst (t : T) :
    (q.enqueueFirst t (.update p)).Holds (Function.update group p (t :: group p)) := by
  rw [← h.chain p]
  exact h.add hp (by simp)

end

variable {group : Nat → List T}

/-- Extracting a member of a chain takes it out of its group. -/
theorem Holds.extract [DecidableEq T] (h : q.Holds group)
    (hp : p < 256) {t : T} (ht : t ∈ group p) :
    (q.extract t (.update p)).Holds (Function.update group p ((group p).erase t)) := by
  rw [← h.chain p] at ht ⊢
  by_cases hone : (q.ready p).length = 1
  · obtain ⟨u, hu⟩ := List.length_eq_one_iff.mp hone
    have hut : t = u := by simpa [hu] using ht
    subst hut
    rw [show q.extract t (.update p) = _ from if_pos hone, hu, List.erase_cons_head]
    exact h.set (p := p) (h.bitMap.remove hp) (by simp) fun p' hpp => by simp [hpp]
  · rw [show q.extract t (.update p) = _ from if_neg hone]
    refine h.replace (p := p) ?_ (List.ne_nil_of_mem ht)
    intro (hnil : (q.ready p).erase t = [])
    have hlen := List.length_erase_of_mem ht
    rw [hnil] at hlen
    have := List.length_pos_of_mem ht
    simp at hlen
    omega

/-- Rotation moves a member of a chain to the end of its group. -/
theorem Holds.rotate [DecidableEq T] (h : q.Holds group) {t : T} (ht : t ∈ group p) :
    (q.rotate t (.update p)).Holds (Function.update group p ((group p).erase t ++ [t])) := by
  rw [← h.chain p] at ht ⊢
  by_cases hone : (q.ready p).length = 1
  · obtain ⟨u, hu⟩ := List.length_eq_one_iff.mp hone
    have hut : t = u := by simpa [hu] using ht
    subst hut
    have hrot : q.rotate t (.update p) = q := if_pos hone
    have hgroup : Function.update group p ((q.ready p).erase t ++ [t]) = group := by
      rw [Function.update_eq_self_iff, ← h.chain, hu]
      simp
    rw [hrot, hgroup]
    exact h
  · have hrot : q.rotate t (.update p) =
        { q with ready := Function.update q.ready p ((q.ready p).erase t ++ [t]) } := if_neg hone
    rw [hrot]
    exact h.replace (by simp) (List.ne_nil_of_mem ht)

theorem Holds.first_eq (h : q.Holds group)
    (hp : p < 256) (hne : group p ≠ []) (hleast : ∀ p' < p, group p' = []) :
    q.first = (group p).head? := by
  obtain ⟨hset, hle⟩ := h.bitMap.getHighest_isLeast hp hne
  have heq : q.bitMap.getHighest = p := by
    by_contra hcon
    exact hset (hleast _ (by omega))
  rw [first, heq, h.chain]

end

/-- The first thread of queues that hold the groups of a sorted list is its head. -/
theorem Holds.first_eq_head {q : ReadyQueues T} {key : T → Nat} {l : List T}
    (h : q.Holds fun p => l.filter fun t => key t = p) (hl : SortedBy key l)
    (hkey : ∀ t ∈ l, key t < 256) : q.first = l.head? := by
  cases l with
  | nil => simp [first, h.chain]
  | cons a l =>
    have hne : (a :: l).filter (fun t => key t = key a) ≠ [] := by simp
    rw [h.first_eq (hkey a (by simp)) hne]
    · simp
    · intro p' hp'
      rw [List.filter_eq_nil_iff]
      intro t ht
      have := hl.head_le ht
      simp only [decide_eq_true_eq]
      omega

end ReadyQueues

end Rtems.Scheduler

namespace Rtems.Scheduler.Uniprocessor.Priority

/-- `Scheduler_priority_Context` with the scheduler nodes of the threads. -/
structure Context (T : Type*) where
  queues : ReadyQueues T
  node : T → ReadyQueue

variable {T : Type*} [DecidableEq T]

/-- `_Scheduler_priority_Initialize` and `_Scheduler_priority_Node_initialize` of all
threads. -/
def initialized (thread : T → Thread) : Context T where
  queues := .initialized
  node t := .update (thread t).priority

/-- `_Scheduler_priority_Extract_body`. -/
def extractBody (s : State T (Context T)) (t : T) : State T (Context T) :=
  { s with context :=
    { s.context with queues := s.context.queues.extract t (s.context.node t) } }

/-- `_Scheduler_priority_Schedule_body`. -/
def scheduleBody (s : State T (Context T)) (forceDispatch : Bool) :
    Option (State T (Context T)) :=
  s.context.queues.first.map fun heir => updateHeir s heir forceDispatch

/-- `_Scheduler_priority_Schedule`. -/
def schedule (s : State T (Context T)) (_ : T) : Option (State T (Context T)) :=
  scheduleBody s false

/-- `_Scheduler_priority_Block`. -/
def block (s : State T (Context T)) (t : T) : Option (State T (Context T)) :=
  genericBlock extractBody scheduleBody s t

/-- `_Scheduler_priority_Ready_queue_update` of the node of one thread. -/
def updateNode (s : State T (Context T)) (t : T) (priority : Nat) : State T (Context T) :=
  { s with context :=
    { s.context with node := Function.update s.context.node t (.update priority) } }

/-- `_Scheduler_priority_Ready_queue_enqueue` of one thread. -/
def enqueue (s : State T (Context T)) (t : T) : State T (Context T) :=
  { s with context :=
    { s.context with queues := s.context.queues.enqueue t (s.context.node t) } }

/-- `_Scheduler_priority_Ready_queue_enqueue_first` of one thread. -/
def enqueueFirst (s : State T (Context T)) (t : T) : State T (Context T) :=
  { s with context :=
    { s.context with queues := s.context.queues.enqueueFirst t (s.context.node t) } }

/-- `_Scheduler_priority_Unblock`. -/
def unblock (s : State T (Context T)) (t : T) : Option (State T (Context T)) :=
  let priority := (s.thread t).value
  let s := if priority ≠ (s.context.node t).currentPriority then updateNode s t priority else s
  let s := enqueue s t
  if priority < s.priority s.cpu.heir then
    some (updateHeir s t (decide (priority = priorityPseudoIsr)))
  else some s

/-- `_Scheduler_priority_Update_priority`: an unchanged priority changes nothing. -/
def updatePriority (s : State T (Context T)) (t : T) : Option (State T (Context T)) :=
  if (s.thread t).isReady then
    let priority := (s.thread t).value
    let prependIt := (s.thread t).prependIt
    if priority = (s.context.node t).currentPriority then some s
    else
      let s := extractBody s t
      let s := updateNode s t priority
      let s := if prependIt then enqueueFirst s t else enqueue s t
      scheduleBody s false
  else some s

/-- `_Scheduler_priority_Yield`: the new heir is forced. -/
def yield (s : State T (Context T)) (t : T) : Option (State T (Context T)) :=
  let s := { s with context :=
    { s.context with queues := s.context.queues.rotate t (s.context.node t) } }
  scheduleBody s true

/-- `SCHEDULER_PRIORITY_ENTRY_POINTS`. -/
def operations : Operations T (Context T) :=
  ⟨schedule, yield, block, unblock, updatePriority⟩

section Lemmas

variable {s : State T (Context T)} {t : T}

/-- Unblocking gives the thread the node of its priority, whether or not this changes it. -/
theorem unblock_eq (hnode : s.context.node t = .update (s.context.node t).currentPriority) :
    unblock s t =
      if (s.thread t).value < s.priority s.cpu.heir then
        some (updateHeir (enqueue (updateNode s t (s.thread t).value) t) t
          (decide ((s.thread t).value = priorityPseudoIsr)))
      else some (enqueue (updateNode s t (s.thread t).value) t) := by
  have hupdate : (if (s.thread t).value ≠ (s.context.node t).currentPriority then
      updateNode s t (s.thread t).value else s) = updateNode s t (s.thread t).value := by
    by_cases hp : (s.thread t).value = (s.context.node t).currentPriority
    · rw [if_neg (by simpa using hp), updateNode, hp, ← hnode, Function.update_eq_self]
    · rw [if_pos hp]
  simp only [unblock, hupdate]
  rfl

end Lemmas

end Rtems.Scheduler.Uniprocessor.Priority
