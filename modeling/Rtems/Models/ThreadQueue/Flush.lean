import Mathlib.Data.List.Basic

/-!
# Flushing a first-in first-out thread queue

A flush offers the first thread of the queue to a filter. The filter may change the
object the queue belongs to and either lets the thread go or ends the flush, so its
later decisions depend on what its earlier ones did to the object.
-/

namespace Rtems.WaitQueue

variable {σ W : Type*}

/-- What a flush leaves: the threads it let go in queue order, the object and the queue. -/
structure Flushed (σ W : Type*) where
  /-- The threads that were extracted, first one first. -/
  extracted : List W
  /-- The object the queue belongs to. -/
  object : σ
  /-- The threads that still wait. -/
  queue : List W

/-- `_Thread_queue_Flush_critical`: a filter result `none` is the source's `NULL`. -/
def flushCritical (filter : W → σ → Option σ) : σ → List W → Flushed σ W
  | object, [] => ⟨[], object, []⟩
  | object, first :: rest =>
    match filter first object with
    | none => ⟨[], object, first :: rest⟩
    | some object' =>
      let result := flushCritical filter object' rest
      ⟨first :: result.extracted, result.object, result.queue⟩

/-- `_Thread_queue_Flush_default_filter` lets every thread go. -/
def flushDefaultFilter (_ : W) (object : σ) : Option σ :=
  some object

variable {filter : W → σ → Option σ} {first : W}

theorem flushCritical_refused {object : σ}
    (rest : List W) (h : filter first object = none) :
    flushCritical filter object (first :: rest) = ⟨[], object, first :: rest⟩ := by
  simp only [flushCritical, h]

theorem flushCritical_accepted {object object' : σ}
    (rest : List W) (h : filter first object = some object') :
    flushCritical filter object (first :: rest) =
      ⟨first :: (flushCritical filter object' rest).extracted,
        (flushCritical filter object' rest).object,
        (flushCritical filter object' rest).queue⟩ := by
  simp only [flushCritical, h]

/-- A flush splits the queue into the threads it let go and those that still wait. -/
theorem flushCritical_append (filter : W → σ → Option σ) (object : σ) (queue : List W) :
    (flushCritical filter object queue).extracted ++ (flushCritical filter object queue).queue =
      queue := by
  induction queue generalizing object with
  | nil => rfl
  | cons first rest ih =>
    cases h : filter first object with
    | none => rw [flushCritical_refused rest h, List.nil_append]
    | some object' => rw [flushCritical_accepted rest h, List.cons_append, ih]

@[simp] theorem flushCritical_default (object : σ) (queue : List W) :
    flushCritical flushDefaultFilter object queue = ⟨queue, object, []⟩ := by
  induction queue with
  | nil => rfl
  | cons first rest ih => simp [flushCritical, flushDefaultFilter, ih]

end Rtems.WaitQueue
