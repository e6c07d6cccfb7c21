import Rtems.Models.ThreadQueue.System

/-!
# Deadlock detection is exact

In every state between two operations the wait graph has no cycle, the walk that looks
for a deadlock ends, and an enqueue is refused exactly if the thread can be reached from
the queue along owners and waits.
-/

namespace Rtems.ThreadQueue

variable {T Q N : Type*} {C : Config T N} {own : T → N → Prop} {s : State T Q N}

/-- The thread is back in the default wait state with the status of a deadlock; nothing else
changed. -/
structure Refused (s s' : State T Q N) (t : T) : Prop where
  returnCode : (s'.thread t).returnCode = .deadlock
  waits : s'.waits t = none
  queue : s'.queue = s.queue
  others : ∀ u, u ≠ t → s'.thread u = s.thread u

variable [DecidableEq T] [DecidableEq Q] [DecidableEq N]

/-- An enqueue on an owned queue returns; it is refused exactly if it closes a cycle. -/
theorem Invariant.enqueue_refused_iff (h : Invariant C own s) {t o : T} {q : Q}
    (ht : s.waits t = none) (ho : s.owner q = some o) :
    ∃ s', Returns (fun fuel => threadQueueEnqueue fuel s q t) s' ∧
      (Refused s s' t ↔ Reaches s.waits s.owner q t) ∧
      (¬ Reaches s.waits s.owner q t →
        s'.waits t = some q ∧ (s'.thread t).returnCode = .successful) := by
  obtain ⟨n, hn⟩ := threadQueueEnqueue_spec h ht ho
  by_cases hreach : Reaches s.waits s.owner q t
  · refine ⟨setReturnCode s t .deadlock, ⟨n, fun m hm => (hn m hm).1 hreach⟩,
      iff_of_true ⟨?_, ?_, rfl, fun u hu => s.modifyThread_of_ne _ hu⟩ hreach,
      fun hnot => absurd hreach hnot⟩
    · simp [setReturnCode]
    · simpa [setReturnCode, State.waits] using ht
  · obtain ⟨s', hret, -, hwaits, -, hstatus⟩ :=
      (steady_threadQueueEnqueue s q t).exists_returns ⟨n, fun m hm => (hn m hm).2 hreach⟩
    have hwait : s'.waits t = some q := by rw [hwaits, Function.update_self]
    refine ⟨s', hret, iff_of_false (fun hrefused => ?_) hreach, fun _ => ⟨hwait, hstatus⟩⟩
    have := hrefused.waits
    rw [hwait] at this
    cases this

/-- The wait graph stays acyclic, the walk ends with the exact answer, and an enqueue is
refused exactly if the thread can be reached from the queue. -/
theorem deadlock_detection_exact {start : State T Q N} {actions : List (Nat × Op T Q N)}
    (hstart : Initialized C start)
    (hrun : Run (step C) (fun s action => Legal C s action.2) start actions s) :
    (∀ t, ¬ Relation.TransGen (WaitsFor s.waits s.owner) t t) ∧
    (∀ q t, ∃ free,
      Returns (fun fuel => pathAcquireCritical fuel (threadWaitClaim s t q) q t) free ∧
      (free = false ↔ Reaches s.waits s.owner q t)) ∧
    ∀ q t o, s.waits t = none → s.owner q = some o →
      ∃ s', Returns (fun fuel => threadQueueEnqueue fuel s q t) s' ∧
        (Refused s s' t ↔ Reaches s.waits s.owner q t) ∧
        (¬ Reaches s.waits s.owner q t →
          s'.waits t = some q ∧ (s'.thread t).returnCode = .successful) := by
  obtain ⟨hinvariant, -⟩ := invariant_of_run hstart hrun
  refine ⟨hinvariant.acyclic.irrefl, fun q t => ?_,
    fun q t o ht ho => hinvariant.enqueue_refused_iff ht ho⟩
  exact (steady_pathAcquireCritical _ q t).exists_returns
    (pathAcquireCritical_spec hinvariant.acyclic t q q)

/-- The first thread, which owns what the second one waits for, may not wait for a queue of
the second one. -/
theorem deadlock_detection_exact_twoQueues :
    ∃ s s', Run (step threeThreads) (fun s action => Legal threeThreads s action.2) atRest
        [(9, .seize 0 0 true), (9, .seize 1 1 true), (9, .seize 0 1 true)] s ∧
      Returns (fun fuel => threadQueueEnqueue fuel s 1 0) s' ∧ Refused s s' 0 := by
  have hexec : (exec (step threeThreads) (fun s action => Legal threeThreads s action.2) atRest
      [(9, .seize 0 0 true), (9, .seize 1 1 true), (9, .seize 0 1 true)]).map
        (fun s => (s.waits 0, s.owner 1, s.waits 1, s.owner 0)) =
      some (none, some 1, some 0, some 0) := by
    decide
  obtain ⟨s, hs, hstate⟩ := Option.map_eq_some_iff.mp hexec
  simp only [Prod.mk.injEq] at hstate
  obtain ⟨hwait, howner, hnext, hlast⟩ := hstate
  have hrun := Run.of_exec hs
  have hexact := (deadlock_detection_exact initialized_atRest hrun).2.2
  obtain ⟨s', hret, hrefused, -⟩ := hexact 1 0 1 hwait howner
  exact ⟨s, s', hrun, hret, hrefused.mpr (.step howner hnext (.holder hlast))⟩

end Rtems.ThreadQueue
