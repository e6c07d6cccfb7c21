import Rtems.Core.Fuel
import Rtems.Models.ThreadQueue.State

/-!
# The walks do not depend on the fuel

The operations walk along owners and waits. With enough fuel the result of an operation
is one and the same.
-/

namespace Rtems.ThreadQueue

variable {T Q N : Type*} [DecidableEq T] [DecidableEq Q]

omit [DecidableEq Q] in
theorem steady_pathAcquireCritical (s : State T Q N) (q : Q) (t : T) :
    Steady fun n => pathAcquireCritical n s q t := by
  intro n m r hnm h
  induction n generalizing m q with
  | zero => cases h
  | succ n ih =>
    obtain ⟨k, rfl⟩ : ∃ k, m = k + 1 := ⟨m - 1, by omega⟩
    simp only [pathAcquireCritical] at h ⊢
    cases ho : (s.queue q).owner with
    | none => simpa [ho] using h
    | some owner =>
      simp only [ho] at h ⊢
      by_cases heq : owner = t
      · simpa [heq] using h
      · rw [if_neg heq] at h ⊢
        cases hq : (s.thread owner).waitQueue with
        | none => simpa [hq] using h
        | some q' =>
          simp only [hq] at h ⊢
          exact ih q' (by omega) h

variable [DecidableEq N]

section

variable (s : State T Q N)
include s

theorem steady_performActions (t : T) (c : Contributor N Q) (type : ActionType) (updates : List T) :
    Steady fun n => performActions n s t c type updates := by
  intro n m r hnm h
  induction n generalizing m s t c type with
  | zero => cases h
  | succ n ih =>
    obtain ⟨k, rfl⟩ : ∃ k, m = k + 1 := ⟨m - 1, by omega⟩
    simp only [performActions] at h ⊢
    cases hdo : doPerformActions s t c type false updates with
    | none =>
      rw [hdo] at h
      cases h
    | some x =>
      obtain ⟨s', updates', again⟩ := x
      rw [hdo] at h
      cases again with
      | false => exact h
      | true =>
        simp only at h ⊢
        cases hq : (s'.thread t).waitQueue with
        | none => simp [hq] at h
        | some q =>
          simp only [hq] at h ⊢
          cases ho : (s'.queue q).owner with
          | none => simp [ho] at h
          | some owner =>
            simp only [ho] at h ⊢
            exact ih s' owner (.queue q) .change (by omega) h

theorem steady_threadPriorityApply (t : T) (c : Contributor N Q)
    (prependIt : Bool) (type : ActionType) :
    Steady fun n => threadPriorityApply n s t c prependIt type := by
  simp only [threadPriorityApply]
  cases doPerformActions s t c type prependIt [] with
  | none => exact steady_const none
  | some x =>
    obtain ⟨s', updates, again⟩ := x
    cases again with
    | false => exact steady_const _
    | true =>
      simp only
      cases (s'.thread t).waitQueue with
      | none => exact steady_const none
      | some q =>
        simp only
        cases (s'.queue q).owner with
        | none => exact steady_const none
        | some owner => exact steady_performActions s' owner (.queue q) .change updates

theorem steady_inheritEnqueue (q : Q) (t : T) : Steady fun n => inheritEnqueue n s q t := by
  simp only [inheritEnqueue, inheritDoInitialize, inheritDoEnqueue]
  cases (s.queue q).owner with
  | none => exact steady_const none
  | some owner =>
    simp only
    split
    · exact steady_performActions ..
    · split
      · exact steady_performActions ..
      · exact steady_const _

theorem steady_inheritExtract (q : Q) (t : T) : Steady fun n => inheritExtract n s q t := by
  simp only [inheritExtract]
  cases (s.queue q).owner with
  | none => exact steady_const none
  | some owner =>
    simp only
    cases ((s.queue q).heads.extract s.priority t).2 with
    | nothing => exact steady_const _
    | removed => exact steady_performActions ..
    | changed => exact steady_performActions ..

theorem steady_threadQueueEnqueue (q : Q) (t : T) : Steady fun n => threadQueueEnqueue n s q t := by
  intro n m r hnm h
  simp only [threadQueueEnqueue] at h ⊢
  cases hpath : pathAcquireCritical n (threadWaitClaim s t q) q t with
  | none =>
    rw [hpath] at h
    cases h
  | some free =>
    rw [hpath] at h
    have hpath' : pathAcquireCritical m (threadWaitClaim s t q) q t = some free :=
      steady_pathAcquireCritical _ q t hnm hpath
    rw [hpath']
    cases free with
    | false => exact h
    | true => exact (steady_inheritEnqueue _ q t).map _ hnm h

theorem steady_recursiveMutexSeize (q : Q) (t : T) (wait : Bool) :
    Steady fun n => recursiveMutexSeize n s q t wait := by
  simp only [recursiveMutexSeize]
  cases (s.queue q).owner with
  | none => exact steady_const _
  | some owner =>
    simp only
    split
    · exact steady_const _
    · split
      · exact (steady_threadQueueEnqueue s q t).map _
      · exact steady_const _

theorem steady_threadContinue (t : T) (status : Status) :
    Steady fun n => threadContinue n s t status := by
  simp only [threadContinue]
  cases (s.thread t).waitQueue with
  | none => exact steady_const _
  | some q => exact (steady_inheritExtract s q t).map _

theorem steady_threadQueueExtract (t : T) : Steady fun n => threadQueueExtract n s t := by
  simp only [threadQueueExtract]
  cases (s.thread t).waitQueue with
  | none => exact steady_const _
  | some q => exact (steady_inheritExtract s q t).map _

theorem steady_threadPriorityAdd (t : T) (node : N) (priority : Nat) :
    Steady fun n => threadPriorityAdd n s t node priority :=
  (steady_threadPriorityApply _ t (.own node) false .add).map _

theorem steady_threadPriorityRemove (t : T) (node : N) :
    Steady fun n => threadPriorityRemove n s t node :=
  (steady_threadPriorityApply s t (.own node) true .remove).map _

theorem steady_threadPriorityChange (t : T) (node : N) (priority : Nat)
    (prependIt : Bool) : Steady fun n => threadPriorityChange n s t node priority prependIt :=
  (steady_threadPriorityApply _ t (.own node) prependIt .change).map _

end

variable (C : Config T N)

theorem steady_threadRaiseRealPriority (s : State T Q N) (t : T) (priority : Nat) :
    Steady fun n => threadRaiseRealPriority C n s t priority := by
  simp only [threadRaiseRealPriority]
  split
  · exact steady_threadPriorityChange ..
  · exact steady_const _

theorem steady_threadFinalizeLifeChange (s : State T Q N) (t : T) (priority : Nat) :
    Steady fun n => threadFinalizeLifeChange C n s t priority := by
  intro n m r hnm h
  simp only [threadFinalizeLifeChange] at h ⊢
  cases hextract : threadQueueExtract n s t with
  | none =>
    rw [hextract] at h
    cases h
  | some s' =>
    rw [hextract] at h
    have hextract' : threadQueueExtract m s t = some s' :=
      steady_threadQueueExtract s t hnm hextract
    rw [hextract']
    exact (steady_threadRaiseRealPriority C s' t priority).map _ hnm h

theorem steady_threadCancel (s : State T Q N) (t executing : T) :
    Steady fun n => threadCancel C n s t executing := by
  simp only [threadCancel]
  split
  · exact steady_threadFinalizeLifeChange ..
  · exact (steady_threadRaiseRealPriority ..).map _

theorem steady_threadRestartOther (s : State T Q N) (t : T) :
    Steady fun n => threadRestartOther C n s t := by
  simp only [threadRestartOther]
  split
  · exact steady_threadFinalizeLifeChange ..
  · exact steady_const _

end Rtems.ThreadQueue
