import Rtems.Models.RwLock.Exclusion

/-!
# The first waiting thread

A reader waits for a lock that is held for reading only because a writer waits in front of
it. A timeout can take that writer away and leave the readers behind it.
-/

namespace Rtems.RwLock

variable {T : Type}

/-- While readers hold the lock, the first waiting thread wants to write. -/
def WriterFirst (s : State T) : Prop :=
  s.lock.currentState = .lockedForReading → ∀ w ∈ s.queue.head?, w.option = .write

/-- While readers hold the lock, a timeout of the first waiting thread finds no reader next
in the queue. -/
def SparesWriter (s : State T) : Op T → Prop
  | .timeout thread =>
    s.lock.currentState = .lockedForReading → (∃ w ∈ s.queue.head?, w.thread = thread) →
      ∀ w ∈ s.queue[1]?, w.option = .write
  | _ => True

/-- After a hand-over to readers a writer is first in the queue. -/
theorem handOver_writerFirst (lock : Control) (queue holders : List (Request T)) :
    WriterFirst ⟨(handOver lock queue).object, (handOver lock queue).queue, holders⟩ := by
  intro hstate w hw
  cases queue with
  | nil => cases hw
  | cons first rest =>
    obtain ⟨thread, option⟩ := first
    cases option with
    | read =>
      rw [handOver_read] at hw
      have hnot := List.head?_dropWhile_not (fun w : Request T => decide (w.option = .read)) rest
      rw [Option.mem_def.mp hw] at hnot
      cases hoption : w.option with
      | read => simp [hoption] at hnot
      | write => rfl
    | write =>
      rw [handOver_write] at hstate
      cases hstate

/-- Nobody waits for a lock that is free. -/
def NoneWaits (s : State T) : Prop :=
  s.lock.currentState = .unlocked → s.queue = []

/-- A hand-over leaves the lock free only if nobody waits. -/
theorem handOver_noneWaits (lock : Control) (queue holders : List (Request T)) :
    NoneWaits ⟨(handOver lock queue).object, (handOver lock queue).queue, holders⟩ := by
  intro hstate
  cases queue with
  | nil => rfl
  | cons first rest =>
    obtain ⟨thread, option⟩ := first
    cases option with
    | read =>
      rw [handOver_read] at hstate
      cases hstate
    | write =>
      rw [handOver_write] at hstate
      cases hstate

/-- A release leaves the lock and the queue, or only the count of the readers changes, or the
lock is handed over. -/
theorem surrenderLock_cases (lock : Control) (queue : List (Request T)) :
    (∃ readers, surrenderLock lock queue = ⟨[], { lock with numberOfReaders := readers }, queue⟩) ∨
      ∃ lock', surrenderLock lock queue = handOver lock' queue := by
  unfold surrenderLock
  split
  · exact .inl ⟨lock.numberOfReaders, rfl⟩
  · split
    · exact .inl ⟨_, rfl⟩
    · exact .inr ⟨_, rfl⟩
  · exact .inr ⟨_, rfl⟩

/-- An acquisition that has to wait finds a lock that is not free. -/
theorem seizeForReading_noneWaits (s : State T) (executing : T) (wait : Bool) :
    NoneWaits (seizeForReading s executing wait).1 := by
  obtain ⟨⟨state, readers⟩, queue, holders⟩ := s
  intro hstate
  cases state with
  | unlocked => cases hstate
  | lockedForReading => cases queue <;> cases wait <;> cases hstate
  | lockedForWriting => cases wait <;> cases hstate

theorem seizeForWriting_noneWaits (s : State T) (executing : T) (wait : Bool) :
    NoneWaits (seizeForWriting s executing wait).1 := by
  obtain ⟨⟨state, readers⟩, queue, holders⟩ := s
  intro hstate
  cases state with
  | unlocked => cases hstate
  | lockedForReading => cases wait <;> cases hstate
  | lockedForWriting => cases wait <;> cases hstate

section

variable {s : State T} (hs : NoneWaits s)
include hs

theorem NoneWaits.timeout [DecidableEq T] (thread : T) : NoneWaits (timeout s thread).1 := by
  unfold RwLock.timeout
  split
  · intro hstate
    show s.queue.eraseP _ = []
    rw [hs hstate, List.eraseP_nil]
  · exact hs

theorem NoneWaits.surrender [DecidableEq T] (executing : T) :
    NoneWaits (surrender s executing) := by
  unfold RwLock.surrender
  rcases surrenderLock_cases s.lock s.queue with ⟨readers, heq⟩ | ⟨lock', heq⟩
  · rw [heq]
    exact hs
  · rw [heq]
    exact handOver_noneWaits lock' s.queue _

end

section

variable {s : State T} (hs : WriterFirst s)
include hs

/-- A reader that has to wait finds a thread in the queue. -/
theorem WriterFirst.seizeForReading (hnone : NoneWaits s) (executing : T) (wait : Bool) :
    WriterFirst (seizeForReading s executing wait).1 := by
  obtain ⟨⟨state, readers⟩, queue, holders⟩ := s
  intro hstate w hw
  cases state with
  | unlocked =>
    obtain rfl : queue = [] := hnone rfl
    cases hw
  | lockedForReading =>
    cases queue with
    | nil => cases hw
    | cons first rest => cases wait <;> exact hs rfl w hw
  | lockedForWriting => cases wait <;> cases hstate

/-- A writer that has to wait may become the first in the queue. -/
theorem WriterFirst.seizeForWriting (executing : T) (wait : Bool) :
    WriterFirst (seizeForWriting s executing wait).1 := by
  obtain ⟨⟨state, readers⟩, queue, holders⟩ := s
  intro hstate w hw
  cases state with
  | unlocked => cases hstate
  | lockedForReading =>
    cases wait with
    | false => exact hs rfl w hw
    | true =>
      cases queue with
      | nil =>
        cases hw
        rfl
      | cons first rest => exact hs rfl w hw
  | lockedForWriting => cases wait <;> cases hstate

/-- A timeout that spares the writer leaves a writer first. -/
theorem WriterFirst.timeout [DecidableEq T] {thread : T} (hop : SparesWriter s (.timeout thread)) :
    WriterFirst (timeout s thread).1 := by
  unfold RwLock.timeout
  split
  · obtain ⟨lock, queue, holders⟩ := s
    intro hstate w hw
    cases queue with
    | nil => cases hw
    | cons first rest =>
      by_cases hfirst : first.thread = thread
      · refine hop hstate ⟨first, rfl, hfirst⟩ w ?_
        simpa [hfirst, List.head?_eq_getElem?] using hw
      · exact hs hstate w (by simpa [hfirst] using hw)
  · exact hs

/-- A release that leaves readers keeps the queue. -/
theorem WriterFirst.surrender [DecidableEq T] (executing : T) :
    WriterFirst (surrender s executing) := by
  unfold RwLock.surrender
  rcases surrenderLock_cases s.lock s.queue with ⟨readers, heq⟩ | ⟨lock', heq⟩
  · rw [heq]
    exact hs
  · rw [heq]
    exact handOver_writerFirst lock' s.queue _

end

/-- In every run without a timeout that takes the writer in front of a waiting reader,
whenever the lock is held for reading and threads wait, the first of them waits for writing. -/
theorem first_waiter_writes [DecidableEq T] {ops : List (Op T)} {s : State T}
    (hrun : Run step (fun s op => Legal s op ∧ SparesWriter s op) start ops s)
    (hstate : s.lock.currentState = .lockedForReading) (hwait : s.queue ≠ []) :
    ∃ w ∈ s.queue.head?, w.option = .write := by
  have hkept : NoneWaits s ∧ WriterFirst s := by
    refine hrun.invariant (fun s => NoneWaits s ∧ WriterFirst s)
      ⟨fun _ => rfl, fun h => absurd h (by simp [start])⟩ ?_
    rintro s op s' ⟨hnone, hs⟩ ⟨-, hspares⟩ hstep
    cases op with
    | seizeForReading thread wait =>
      exact Option.some.inj hstep ▸
        ⟨seizeForReading_noneWaits s thread wait, hs.seizeForReading hnone thread wait⟩
    | seizeForWriting thread wait =>
      exact Option.some.inj hstep ▸
        ⟨seizeForWriting_noneWaits s thread wait, hs.seizeForWriting thread wait⟩
    | timeout thread => exact Option.some.inj hstep ▸ ⟨hnone.timeout thread, hs.timeout hspares⟩
    | surrender thread => exact Option.some.inj hstep ▸ ⟨hnone.surrender thread, hs.surrender thread⟩
  obtain ⟨w, rest, hqueue⟩ := List.exists_cons_of_ne_nil hwait
  have hhead : w ∈ s.queue.head? := by rw [hqueue]; rfl
  exact ⟨w, hhead, hkept.2 hstate w hhead⟩

/-- A reader works, a writer and a second reader wait, and the second reader gives up. -/
theorem first_waiter_writes_reader_leaves :
    ∃ s : State Nat, s = ⟨⟨.lockedForReading, 1⟩, [⟨1, .write⟩], [⟨0, .read⟩]⟩ ∧
      ∃ w ∈ s.queue.head?, w.option = .write := by
  have hrun : Run step (fun s op => Legal s op ∧ SparesWriter s op) start
      [.seizeForReading 0 true, .seizeForWriting 1 true, .seizeForReading 2 true, .timeout 2] _ :=
    (((Run.nil.snoc ⟨by decide, trivial⟩ rfl).snoc ⟨by decide, trivial⟩ rfl).snoc
      ⟨by decide, trivial⟩ rfl).snoc ⟨trivial, by rintro - ⟨w, ⟨⟩, ⟨⟩⟩⟩ rfl
  exact ⟨_, rfl, first_waiter_writes hrun rfl (by decide)⟩

/-- If the waiting writer gives up instead, the second reader waits for a lock that only a
reader holds. -/
theorem reader_left_waiting :
    ∃ s : State Nat, Run step Legal start
      [.seizeForReading 0 true, .seizeForWriting 1 true, .seizeForReading 2 true, .timeout 1] s ∧
      s = ⟨⟨.lockedForReading, 1⟩, [⟨2, .read⟩], [⟨0, .read⟩]⟩ :=
  ⟨_, .of_exec (by rfl), rfl⟩

end Rtems.RwLock
