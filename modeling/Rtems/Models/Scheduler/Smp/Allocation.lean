import Rtems.Core.Assignment
import Rtems.Models.Scheduler.Smp.State

/-!
# Processor allocation

What the processor allocation functions change, and that the processors and the
threads that hold them stay in one-to-one correspondence.
-/

namespace Rtems.Scheduler.Smp

open Function

variable {T C R : Type*} [DecidableEq T] [DecidableEq C]

/-- Two states that differ in heirs, in processors of threads and in the context only. -/
structure SameButProcessors (s s' : State T C R) : Prop where
  node : s'.node = s.node
  scheduled : s'.scheduled = s.scheduled
  idleThreads : s'.idleThreads = s.idleThreads
  state : ∀ t, (s'.thread t).state = (s.thread t).state
  isReady : ∀ t, (s'.thread t).isReady = (s.thread t).isReady

namespace SameButProcessors

variable {s s' s'' : State T C R}

omit [DecidableEq T] [DecidableEq C] in
theorem trans (h : SameButProcessors s s') (h' : SameButProcessors s' s'') :
    SameButProcessors s s'' where
  node := h'.node.trans h.node
  scheduled := h'.scheduled.trans h.scheduled
  idleThreads := h'.idleThreads.trans h.idleThreads
  state t := (h'.state t).trans (h.state t)
  isReady t := (h'.isReady t).trans (h.isReady t)

omit [DecidableEq T] [DecidableEq C] in
theorem priority (h : SameButProcessors s s') : s'.priority = s.priority := by
  funext n
  rw [State.priority, h.node, State.priority]

omit [DecidableEq T] in
theorem dispatchUpdateHeir (s : State T C R) (c : C) (t : T) :
    SameButProcessors s (s.dispatchUpdateHeir c t) :=
  ⟨rfl, rfl, rfl, fun _ => rfl, fun _ => rfl⟩

omit [DecidableEq C] in
theorem setCpu (s : State T C R) (t : T) (c : C) : SameButProcessors s (s.setCpu t c) where
  node := rfl
  scheduled := rfl
  idleThreads := rfl
  state u := by
    by_cases hu : u = t
    · subst hu
      simp [State.setCpu, State.setThread]
    · simp [State.setCpu, State.setThread, hu]
  isReady u := by
    by_cases hu : u = t
    · subst hu
      simp [State.setCpu, State.setThread]
    · simp [State.setCpu, State.setThread, hu]

end SameButProcessors

section

variable (isOwned : C → Bool) {s : State T C R} (huser : ∀ n, (s.node n).user = n)
  {scheduled victim : T} (hne : scheduled ≠ victim) (victimCpu : C)
include isOwned huser hne victimCpu

/-- What a lazy allocation does: the scheduled thread keeps its processor, or exchanges
it with the heir there, or moves to the victim's processor. -/
theorem allocateProcessorLazy_cases :
    (isOwned (s.cpu scheduled) = true ∧ s.heir (s.cpu scheduled) = victim ∧
      allocateProcessorLazy isOwned s scheduled victim victimCpu =
        s.dispatchUpdateHeir (s.cpu scheduled) scheduled) ∨
    (isOwned (s.cpu scheduled) = true ∧ s.heir (s.cpu scheduled) ≠ victim ∧
      allocateProcessorLazy isOwned s scheduled victim victimCpu =
        ((s.dispatchUpdateHeir (s.cpu scheduled) scheduled).setCpu (s.heir (s.cpu scheduled))
          victimCpu).dispatchUpdateHeir victimCpu (s.heir (s.cpu scheduled))) ∨
    allocateProcessorLazy isOwned s scheduled victim victimCpu =
      (s.setCpu scheduled victimCpu).dispatchUpdateHeir victimCpu scheduled := by
  unfold allocateProcessorLazy
  rw [huser, huser]
  by_cases hex : (s.thread scheduled).isExecuting = true
  · by_cases hown : isOwned (s.cpu scheduled) = true
    · by_cases hheir : s.heir (s.cpu scheduled) = victim
      · exact .inl ⟨hown, hheir, by simp_all [State.cpu]⟩
      · exact .inr (.inl ⟨hown, hheir, by simp_all [State.cpu]⟩)
    · exact .inr (.inr (by simp_all [State.cpu]))
  · exact .inr (.inr (by simp_all))

/-- Lazy allocation touches processors only. -/
theorem allocateProcessorLazy_same :
    SameButProcessors s (allocateProcessorLazy isOwned s scheduled victim victimCpu) := by
  rcases allocateProcessorLazy_cases isOwned huser hne victimCpu with ⟨-, -, h⟩ | ⟨-, -, h⟩ | h
  · rw [h]
    exact .dispatchUpdateHeir ..
  · rw [h]
    exact ((SameButProcessors.dispatchUpdateHeir ..).trans (.setCpu ..)).trans
      (.dispatchUpdateHeir ..)
  · rw [h]
    exact (SameButProcessors.setCpu ..).trans (.dispatchUpdateHeir ..)

/-- Lazy allocation does not touch the context. -/
theorem allocateProcessorLazy_context :
    (allocateProcessorLazy isOwned s scheduled victim victimCpu).context = s.context := by
  rcases allocateProcessorLazy_cases isOwned huser hne victimCpu with ⟨-, -, h⟩ | ⟨-, -, h⟩ | h
  · rw [h]
    rfl
  · rw [h]
    rfl
  · rw [h]
    rfl

end

theorem allocateProcessorExact_same (s : State T C R) (scheduled : T) (victimCpu : C) :
    SameButProcessors s (allocateProcessorExact s scheduled victimCpu) :=
  (SameButProcessors.setCpu ..).trans (.dispatchUpdateHeir ..)

section Heirs

variable {s : State T C R} {cpus : List C} {A A' : T → Prop} {scheduled victim : T}

/-- After a lazy allocation the scheduled thread holds a processor in the place of the
victim. -/
theorem allocateProcessorLazy_heirs {isOwned : C → Bool}
    (howned : ∀ c, isOwned c = true ↔ c ∈ cpus) (huser : ∀ n, (s.node n).user = n)
    (h : Assignment (· ∈ cpus) s.cpu s.heir A) (hv : A victim) (hn : ¬A scheduled)
    (hA : ∀ u, A' u ↔ u = scheduled ∨ u ≠ victim ∧ A u) :
    Assignment (· ∈ cpus) (allocateProcessorLazy isOwned s scheduled victim (s.cpu victim)).cpu
      (allocateProcessorLazy isOwned s scheduled victim (s.cpu victim)).heir A' := by
  have hsv : scheduled ≠ victim := by
    rintro rfl
    exact hn hv
  rcases allocateProcessorLazy_cases isOwned huser hsv (s.cpu victim) with
    ⟨hown, hheir, hs⟩ | ⟨hown, hheir, hs⟩ | hs
  · have hslot : s.cpu scheduled = s.cpu victim := by
      rw [← hheir, h.slot_holder _ ((howned _).mp hown)]
    rw [hs]
    change Assignment _ s.cpu (update s.heir (s.cpu scheduled) scheduled) A'
    rw [hslot]
    exact h.replace hv hn hA hslot fun _ _ => rfl
  · have hc := (howned _).mp hown
    have hne : scheduled ≠ s.heir (s.cpu scheduled) := by
      intro he
      exact hn (he ▸ h.holder_mem _ hc)
    rw [hs]
    change Assignment _ ((s.dispatchUpdateHeir (s.cpu scheduled) scheduled).setCpu
      (s.heir (s.cpu scheduled)) (s.cpu victim)).cpu _ A'
    rw [State.cpu_setCpu]
    refine h.exchange hv hn hc hheir hA ?_ ?_ ?_
    · rw [update_of_ne hne]
      rfl
    · rw [update_self]
    · intro u _ hu
      rw [update_of_ne hu]
      rfl
  · -- The processor of the victim goes to the scheduled thread.
    have hcpu := State.cpu_setCpu s scheduled (s.cpu victim)
    rw [hs]
    refine h.replace hv hn hA ?_ ?_
    · change (s.setCpu scheduled (s.cpu victim)).cpu scheduled = _
      rw [hcpu, update_self]
    · intro u hu
      change (s.setCpu scheduled (s.cpu victim)).cpu u = _
      rw [hcpu, update_of_ne hu]

end Heirs

end Rtems.Scheduler.Smp
