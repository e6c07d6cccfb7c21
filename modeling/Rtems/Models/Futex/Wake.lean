import Mathlib.Data.BitVec
import Rtems.Models.ThreadQueue.Flush

/-!
# Futexes

A wait compares a value that any thread may change with the caller's one and enqueues the
caller under the lock of the futex. A wake flushes the first threads under the same lock.
-/

namespace Rtems.Futex

open WaitQueue

/-- The value at `uaddr` and the threads that wait, each with the `val` of its call. -/
structure Control (T : Type*) where
  value : Int
  queue : List (T × Int)
  deriving DecidableEq, Repr

/-- One step: a store to `uaddr`, or a call as far as it holds the lock. -/
inductive Step (T : Type*)
  | store (value : Int)
  | wait (thread : T) (val : Int)
  | wake (count : Int)
  deriving DecidableEq, Repr

variable {T W : Type*}

/-- `_Futex_Wait`: the futex, and whether the caller waits or gets `EWOULDBLOCK`. -/
def wait (f : Control T) (executing : T) (val : Int) : Control T × Bool :=
  if f.value = val then ({ f with queue := f.queue ++ [(executing, val)] }, true) else (f, false)

/-- `_Futex_Flush_filter` on the count of its context. -/
def flushFilter (_ : W) (count : Int) : Option Int :=
  if count ≤ 0 then none else some (count - 1)

/-- `_Futex_Wake`: the woken threads, the futex and the number returned. -/
def wake (f : Control T) (count : Int) : List (T × Int) × Control T × Nat :=
  if f.queue.isEmpty then ([], f, 0)
  else
    let flushed := flushCritical flushFilter count f.queue
    (flushed.extracted, { f with queue := flushed.queue }, flushed.extracted.length)

def step (f : Control T) : Step T → Control T
  | .store value => { f with value }
  | .wait thread val => (wait f thread val).1
  | .wake count => (wake f count).2.1

/-- The futex after some steps from a first value. -/
def run (value : Int) (steps : List (Step T)) : Control T :=
  steps.foldl step ⟨value, []⟩

/-- The number of threads that a step wakes if so many wait. -/
def Step.count : Step T → Nat
  | .wake count => count.toNat
  | _ => 0

/-- The filter lets as many threads go as the count says. -/
theorem flush_eq (count : Int) (queue : List W) :
    (flushCritical flushFilter count queue).extracted = queue.take count.toNat ∧
      (flushCritical flushFilter count queue).queue = queue.drop count.toNat := by
  induction queue generalizing count with
  | nil => simp [flushCritical]
  | cons first rest ih =>
    by_cases hcount : count ≤ 0
    · rw [flushCritical_refused rest (if_pos hcount), Int.toNat_of_nonpos hcount]
      exact ⟨rfl, rfl⟩
    · rw [flushCritical_accepted rest (if_neg hcount),
        show count.toNat = (count - 1).toNat + 1 by omega]
      exact ⟨congrArg _ (ih _).1, (ih _).2⟩

theorem wake_eq (f : Control T) (count : Int) :
    wake f count = (f.queue.take count.toNat, { f with queue := f.queue.drop count.toNat },
      min count.toNat f.queue.length) := by
  obtain ⟨value, queue⟩ := f
  cases queue with
  | nil => simp [wake]
  | cons w rest =>
    obtain ⟨hextracted, hqueue⟩ := flush_eq count (w :: rest)
    simp only [wake, List.isEmpty_cons, Bool.false_eq_true, if_false, hextracted, hqueue,
      List.length_take]

variable {thread : T} {val : Int} {i : Nat}

/-- A thread that waits after a step waited before it or has found its value. -/
theorem step_getElem? {f : Control T} {s : Step T}
    (h : (step f s).queue[i]? = some (thread, val)) :
    f.queue[i + s.count]? = some (thread, val) ∨
      s = .wait thread val ∧ f.value = val ∧ i = f.queue.length := by
  cases s with
  | store value => exact .inl h
  | wait t v =>
    rw [step, wait] at h
    split at h
    next heq =>
      rcases Nat.lt_or_ge i f.queue.length with hi | hi
      · exact .inl (by rwa [List.getElem?_append_left hi] at h)
      · rw [List.getElem?_append_right hi, List.getElem?_singleton] at h
        obtain ⟨hlast, rfl, rfl⟩ : i - f.queue.length = 0 ∧ t = thread ∧ v = val := by
          simpa using h
        exact .inr ⟨rfl, heq, by omega⟩
    next => exact .inl h
  | wake count =>
    rw [step, wake_eq, List.getElem?_drop, Nat.add_comm] at h
    exact .inl h

/-- A thread waits since a step that found its value, and the wakes since then have woken exactly
the threads that it has no longer ahead of it. -/
theorem run_getElem? {value : Int} {steps : List (Step T)}
    (h : (run value steps).queue[i]? = some (thread, val)) :
    ∃ before after, steps = before ++ .wait thread val :: after ∧
      (run value before).value = val ∧
      i + (after.map Step.count).sum = (run value before).queue.length := by
  induction steps using List.reverseRecOn generalizing i with
  | nil => cases h
  | append_singleton steps s ih =>
    rw [run, List.foldl_append, ← run] at h
    rcases step_getElem? h with hold | ⟨rfl, hfound, hi⟩
    · obtain ⟨before, after, rfl, hfound, hcount⟩ := ih hold
      exact ⟨before, after ++ [s], by simp, hfound, by simp; omega⟩
    · exact ⟨steps, [], rfl, hfound, by simpa using hi⟩

/-- A wake takes the first threads, as many as its count says. A thread waits only since it found
its value under the lock, and each wake since then has been used up by the threads ahead of it. -/
theorem wake_exact (value : Int) :
    (∀ (f : Control T) (count : Int),
      (wake f count).1 = f.queue.take count.toNat ∧
      (wake f count).2.1 = { f with queue := f.queue.drop count.toNat } ∧
      (wake f count).2.2 = (wake f count).1.length ∧
      ((wake f count).2.2 : Int) = min (max count 0) f.queue.length) ∧
    ∀ (steps : List (Step T)) (i : Nat) (thread : T) (val : Int),
      (run value steps).queue[i]? = some (thread, val) →
        ∃ before after, steps = before ++ .wait thread val :: after ∧
          (run value before).value = val ∧
          i + (after.map Step.count).sum = (run value before).queue.length := by
  refine ⟨?_, fun _ _ _ _ => run_getElem?⟩
  intro f count
  rw [wake_eq, List.length_take]
  refine ⟨rfl, rfl, rfl, ?_⟩
  show ((min count.toNat f.queue.length : Nat) : Int) = _
  omega

/-- The second of two threads that found their value waits behind nobody after a wake of one. -/
theorem wake_exact_secondWaiter :
    (run 5 [.wait 1 5, .wait 2 5, .wake 1]).queue[0]? = some (2, 5) ∧
      ∃ before after, [.wait 1 5, .wait 2 5, .wake 1] = before ++ .wait 2 5 :: after ∧
        (run 5 before).value = 5 ∧
        0 + (after.map Step.count).sum = (run 5 before).queue.length :=
  ⟨rfl, (wake_exact 5).2 _ 0 2 5 rfl⟩

end Rtems.Futex
