import Rtems.Models.ThreadQueue.Surrender

/-!
# What the scheduler knows

A thread's effective priority reaches the scheduler in two steps: the walk sets the
priority in the scheduler node, and an update or an unblock moves the ready thread to
this priority. The trees of threads and queues do not depend on this.
-/

namespace Rtems.ThreadQueue

variable {T Q N : Type*}

/-- The trees, the waits and what the scheduler nodes were told are the same. -/
structure Same (s s' : State T Q N) : Prop where
  queue : s'.queue = s.queue
  nodePriority : s'.nodePriority = s.nodePriority
  waits : s'.waits = s.waits
  waitPriority : ∀ t, (s'.thread t).waitPriority = (s.thread t).waitPriority
  value : ∀ t, (s'.thread t).value = (s.thread t).value

/-- Every ready thread is queued under its effective priority. -/
def Queued (s : State T Q N) : Prop :=
  ∀ t, (s.thread t).isReady = true → (s.thread t).currentPriority = s.priority t

section Same

variable {own : T → N → Prop} {away : T → Prop} {s s' s'' : State T Q N}

theorem Same.refl (s : State T Q N) : Same s s :=
  ⟨rfl, rfl, rfl, fun _ => rfl, fun _ => rfl⟩

section

variable (h : Same s s')
include h

theorem Same.trans (h' : Same s' s'') : Same s s'' where
  queue := h'.queue.trans h.queue
  nodePriority := h'.nodePriority.trans h.nodePriority
  waits := h'.waits.trans h.waits
  waitPriority t := (h'.waitPriority t).trans (h.waitPriority t)
  value t := (h'.value t).trans (h.value t)

theorem Same.owner : s'.owner = s.owner :=
  funext fun q => by rw [State.owner, h.queue]; rfl

theorem Same.priority : s'.priority = s.priority :=
  funext fun t => congrArg Aggregation.priority (h.waitPriority t)

theorem Same.told (htold : Told s) : Told s' := by
  intro t
  rw [h.value, h.priority]
  exact htold t

theorem Same.keeps (q : Q) (t : T) : t ∈ s'.waiters q ↔ t ∈ s.waiters q := by
  rw [State.waiters, h.queue]
  rfl

theorem Same.settled (hs : Settled own away s) : Settled own away s' := by
  refine ⟨fun t => (hs.threads t).congr (h.waitPriority t) ?_ ?_, fun q => ?_⟩
  · intro c
    cases c with
    | own node => exact .rfl
    | queue q => simp only [Wanted, h.owner, h.keeps]
  · intro c _
    cases c with
    | own node => exact congrFun h.nodePriority node
    | queue q => simp only [State.nodeKey, h.queue]
  · obtain ⟨hok, hmem, howner⟩ := hs.queues q
    refine ⟨?_, fun t => by rw [h.keeps, h.waits]; exact hmem t, ?_⟩
    · rw [h.queue, h.priority]
      exact hok
    · intro t ht
      rw [h.owner, h.queue]
      exact howner t ((h.keeps q t).mp ht)

end

end Same

variable {clear : Thread N Q → Thread N Q} {isSet : Thread N Q → Bool}

section Scheduler

variable [DecidableEq T] {s : State T Q N} {t u : T} {updates : List T}

/-- A change of a thread that concerns neither its wait nor its priorities. -/
theorem same_modifyThread {f : Thread N Q → Thread N Q}
    (hwait : (f (s.thread t)).waitQueue = (s.thread t).waitQueue)
    (hpriority : (f (s.thread t)).waitPriority = (s.thread t).waitPriority)
    (hvalue : (f (s.thread t)).value = (s.thread t).value) : Same s (s.modifyThread t f) := by
  refine ⟨rfl, rfl, funext fun u => ?_, fun u => ?_, fun u => ?_⟩ <;>
  by_cases hu : u = t
  · subst hu
    rw [State.waits, State.modifyThread_self, hwait]
    rfl
  · rw [State.waits, s.modifyThread_of_ne f hu]
    rfl
  · subst hu
    rw [State.modifyThread_self, hpriority]
  · rw [s.modifyThread_of_ne f hu]
  · subst hu
    rw [State.modifyThread_self, hvalue]
  · rw [s.modifyThread_of_ne f hu]

theorem same_schedulerUpdatePriority (s : State T Q N) (t : T) :
    Same s (schedulerUpdatePriority s t) := by
  rw [schedulerUpdatePriority]
  split
  · exact same_modifyThread rfl rfl rfl
  · exact .refl s

theorem same_threadPriorityUpdate (s : State T Q N) (updates : List T) :
    Same s (threadPriorityUpdate s updates) := by
  induction updates generalizing s with
  | nil => exact .refl s
  | cons t updates ih => exact (same_schedulerUpdatePriority s t).trans (ih _)

theorem same_threadClearState (hwait : (clear (s.thread t)).waitQueue = (s.thread t).waitQueue)
    (hpriority : (clear (s.thread t)).waitPriority = (s.thread t).waitPriority)
    (hvalue : (clear (s.thread t)).value = (s.thread t).value) :
    Same s (threadClearState s t isSet clear) := by
  have h := same_modifyThread (s := s) (t := t) (f := clear) hwait hpriority hvalue
  rw [threadClearState]
  split
  · dsimp only
    split
    · exact h.trans (same_modifyThread rfl rfl rfl)
    · exact h
  · exact .refl s

/-- Only the cleared thread changes; it is queued under the told priority if it is ready. -/
theorem thread_threadClearState (isSet : Thread N Q → Bool) (clear : Thread N Q → Thread N Q)
    (s : State T Q N) (t u : T) :
    (threadClearState s t isSet clear).thread u =
      if u = t ∧ isSet (s.thread u) = true then
        if (clear (s.thread u)).isReady = true then
          { clear (s.thread u) with currentPriority := (clear (s.thread u)).value }
        else clear (s.thread u)
      else s.thread u := by
  rw [threadClearState]
  by_cases hu : u = t
  · subst hu
    by_cases hset : isSet (s.thread u) = true
    · by_cases hready : (clear (s.thread u)).isReady = true
      · simp [hset, hready, schedulerUnblock]
      · simp [hset, hready]
    · simp [hset]
  · by_cases hset : isSet (s.thread t) = true
    · by_cases hready : (clear (s.thread t)).isReady = true
      · simp [hset, hready, schedulerUnblock, hu, State.modifyThread_of_ne]
      · simp [hset, hready, hu, State.modifyThread_of_ne]
    · simp [hset, hu]

theorem same_threadUnblock (s : State T Q N) (t : T) : Same s (threadUnblock s t) :=
  same_threadClearState rfl rfl rfl

/-- The update of one ready thread. -/
theorem thread_schedulerUpdatePriority (s : State T Q N) (t u : T) :
    (schedulerUpdatePriority s t).thread u =
      if u = t ∧ (s.thread u).isReady = true then
        { s.thread u with currentPriority := (s.thread u).value }
      else s.thread u := by
  rw [schedulerUpdatePriority]
  by_cases hu : u = t
  · subst hu
    by_cases hready : (s.thread u).isReady = true
    · simp [hready]
    · simp [hready]
  · split
    · rw [s.modifyThread_of_ne _ hu]
      simp [hu]
    · simp [hu]

/-- An update moves exactly the registered ready threads. -/
theorem thread_threadPriorityUpdate (s : State T Q N) (updates : List T) (u : T) :
    (threadPriorityUpdate s updates).thread u =
      if u ∈ updates ∧ (s.thread u).isReady = true then
        { s.thread u with currentPriority := (s.thread u).value }
      else s.thread u := by
  induction updates generalizing s with
  | nil => simp [threadPriorityUpdate]
  | cons t updates ih =>
    have hstep := ih (schedulerUpdatePriority s t)
    rw [threadPriorityUpdate] at hstep ⊢
    rw [List.foldl_cons, hstep, thread_schedulerUpdatePriority]
    by_cases hready : (s.thread u).isReady = true
    · by_cases hu : u = t
      · subst hu
        have hready' : Thread.isReady { s.thread u with currentPriority := (s.thread u).value } =
            true := hready
        by_cases hmem : u ∈ updates <;> simp [hready, hready', hmem]
      · by_cases hmem : u ∈ updates <;> simp [hready, hu, hmem]
    · simp [hready]

/-- Ready threads that are not registered must have been queued rightly before. -/
theorem queued_threadPriorityUpdate (htold : Told s)
    (hrest : ∀ t, (s.thread t).isReady = true → t ∈ updates ∨
      (s.thread t).currentPriority = s.priority t) : Queued (threadPriorityUpdate s updates) := by
  intro t hready
  rw [(same_threadPriorityUpdate s updates).priority]
  rw [thread_threadPriorityUpdate] at hready ⊢
  split
  · exact htold t
  · rename_i hnot
    rw [if_neg hnot] at hready
    exact (hrest t hready).resolve_left fun hmem => hnot ⟨hmem, hready⟩

/-- A thread that gets ready is queued under its priority. -/
theorem Queued.threadClearState (h : Queued s) (htold : Told s)
    (hwait : (clear (s.thread t)).waitQueue = (s.thread t).waitQueue)
    (hpriority : (clear (s.thread t)).waitPriority = (s.thread t).waitPriority)
    (hvalue : (clear (s.thread t)).value = (s.thread t).value) :
    Queued (threadClearState s t isSet clear) := by
  intro u hready
  rw [(same_threadClearState hwait hpriority hvalue).priority]
  rw [thread_threadClearState] at hready ⊢
  by_cases hset : u = t ∧ isSet (s.thread u) = true
  · rw [if_pos hset] at hready ⊢
    obtain ⟨rfl, -⟩ := hset
    split
    · rw [← htold u, ← hvalue]
    · rename_i hnot
      rw [if_neg hnot] at hready
      exact absurd hready hnot
  · rw [if_neg hset] at hready ⊢
    exact h u hready

end Scheduler

end Rtems.ThreadQueue
