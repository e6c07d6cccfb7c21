import Rtems.Models.Barrier.State

/-!
# A barrier counts its waiters

While threads leave the queue through the barrier only, its count is the number of
queued threads and an automatic barrier releases exactly when the last missing thread
comes. A wait that times out leaves the count behind.
-/

namespace Rtems.Barrier

variable {T : Type}

/-- The count is the number of queued threads. -/
def Counted (b : Control T) : Prop :=
  b.numberOfWaitingThreads = b.waitQueue.length

/-- A legal operation that takes no queued thread off the queue behind the barrier's back. -/
def Undisturbed (b : Control T) (op : Op T) : Prop :=
  Legal b op ∧
    match op with
    | .wait _ => True
    | .timeout thread => thread ∉ b.waitQueue
    | .delete thread => thread ∉ b.waitQueue
    | .release => True

instance [DecidableEq T] (b : Control T) (op : Op T) : Decidable (Undisturbed b op) :=
  match op with
  | .wait thread => inferInstanceAs (Decidable (Legal b (.wait thread) ∧ True))
  | .timeout thread =>
    inferInstanceAs (Decidable (Legal b (.timeout thread) ∧ thread ∉ b.waitQueue))
  | .delete thread =>
    inferInstanceAs (Decidable (Legal b (.delete thread) ∧ thread ∉ b.waitQueue))
  | .release => inferInstanceAs (Decidable (Legal b (.release : Op T) ∧ True))

variable {b : Control T}

theorem seize_releases (executing : T) (hauto : b.isAutomatic)
    (hcount : b.numberOfWaitingThreads + 1 = b.attributes.maximumCount) :
    seize b executing = (⟨b.attributes, [], 0⟩,
      (b.waitQueue.map fun thread => (thread, .successful)) ++
        [(executing, .automaticallyReleased)]) := by
  simp [seize, hauto, hcount]

theorem seize_enqueues (executing : T)
    (h : ¬ (b.isAutomatic ∧ b.numberOfWaitingThreads + 1 = b.attributes.maximumCount)) :
    Barrier.seize b executing =
      (⟨b.attributes, b.waitQueue ++ [executing], b.numberOfWaitingThreads + 1⟩, []) := by
  simp only [seize, if_neg h]

/-- No operation changes the attributes. -/
theorem step_attributes [DecidableEq T] {b b' : Control T} {op : Op T}
    (h : step b op = some b') : b'.attributes = b.attributes := by
  cases op with
  | wait thread =>
    have heq : (seize b thread).1 = b' := Option.some.inj h
    rw [← heq]
    by_cases hfull : b.isAutomatic ∧ b.numberOfWaitingThreads + 1 = b.attributes.maximumCount
    · rw [seize_releases thread hfull.1 hfull.2]
    · rw [seize_enqueues thread hfull]
  | timeout thread =>
    have heq : (timeout b thread).1 = b' := Option.some.inj h
    rw [← heq]
    unfold timeout
    split <;> rfl
  | delete thread =>
    have heq : extract b thread = b' := Option.some.inj h
    rw [← heq]
    rfl
  | release =>
    have heq : (surrender b).1 = b' := Option.some.inj h
    rw [← heq, surrender_eq]

theorem Counted.seize (h : Counted b) (executing : T) :
    Counted (seize b executing).1 := by
  by_cases hfull : b.isAutomatic ∧ b.numberOfWaitingThreads + 1 = b.attributes.maximumCount
  · rw [seize_releases executing hfull.1 hfull.2]
    rfl
  · rw [seize_enqueues executing hfull]
    simpa [Counted] using h

/-- An undisturbed operation keeps the count. -/
theorem Counted.step [DecidableEq T] {b b' : Control T} {op : Op T} (h : Counted b)
    (hop : Undisturbed b op) (hstep : Barrier.step b op = some b') : Counted b' := by
  cases op with
  | wait thread =>
    have heq : (Barrier.seize b thread).1 = b' := Option.some.inj hstep
    exact heq ▸ h.seize thread
  | timeout thread =>
    have heq : (timeout b thread).1 = b' := Option.some.inj hstep
    rw [← heq, timeout, if_neg hop.2]
    exact h
  | delete thread =>
    have heq : extract b thread = b' := Option.some.inj hstep
    rw [← heq, extract, List.erase_of_not_mem hop.2]
    exact h
  | release =>
    have heq : (surrender b).1 = b' := Option.some.inj hstep
    rw [← heq, surrender_eq]
    rfl

/-- In every run in which no queued thread times out or is deleted, the count is the
number of queued threads, and a wait at an automatic barrier releases the barrier exactly
when all but one of the threads it waits for are queued. -/
theorem barrier_counts_waiters [DecidableEq T] {attributes : Attributes} {ops : List (Op T)}
    {b : Control T} (hmax : 1 ≤ attributes.maximumCount)
    (hrun : Run step Undisturbed (create attributes) ops b) :
    b.numberOfWaitingThreads = b.waitQueue.length ∧
      (attributes.discipline = .automaticRelease → ∀ executing ∉ b.waitQueue,
        seize b executing =
          if b.waitQueue.length = attributes.maximumCount - 1 then
            (⟨attributes, [], 0⟩,
              (b.waitQueue.map fun thread => (thread, .successful)) ++
                [(executing, .automaticallyReleased)])
          else (⟨attributes, b.waitQueue ++ [executing], b.waitQueue.length + 1⟩, [])) := by
  have hinv : Counted b ∧ b.attributes = attributes := by
    refine hrun.invariant (fun b => Counted b ∧ b.attributes = attributes) ⟨rfl, rfl⟩ ?_
    intro b op b' h hop hstep
    exact ⟨h.1.step hop hstep, (step_attributes hstep).trans h.2⟩
  obtain ⟨hcounted, hattributes⟩ := hinv
  refine ⟨hcounted, ?_⟩
  intro hauto executing _
  have hisAuto : b.isAutomatic := by simp [Control.isAutomatic, hattributes, hauto]
  have hnumber : b.numberOfWaitingThreads = b.waitQueue.length := hcounted
  subst hattributes
  split
  next hlast => exact seize_releases executing hisAuto (by omega)
  next hmissing =>
    rw [seize_enqueues executing, hnumber]
    rintro ⟨-, hfull⟩
    omega

/-- Three threads come to an automatic barrier for three, which is then released by hand
once before they come again. -/
private def meetings : List (Op Nat) :=
  [.wait 0, .wait 1, .release, .wait 2, .timeout 1, .wait 0]

/-- The third thread of the second meeting releases the barrier. -/
theorem barrier_counts_waiters_meetings :
    ∃ b : Control Nat,
      Run step Undisturbed (create ⟨.automaticRelease, 3⟩) meetings b ∧
      b.waitQueue = [2, 0] ∧ b.numberOfWaitingThreads = 2 ∧
      (seize b 1).2 = [(2, .successful), (0, .successful), (1, .automaticallyReleased)] := by
  obtain ⟨b, hexec, hqueue⟩ : ∃ b, exec step Undisturbed (create ⟨.automaticRelease, 3⟩)
      meetings = some b ∧ b.waitQueue = [2, 0] := ⟨_, rfl, rfl⟩
  have hrun := Run.of_exec hexec
  obtain ⟨hcount, hrelease⟩ := barrier_counts_waiters (by decide) hrun
  refine ⟨b, hrun, hqueue, by rw [hcount, hqueue]; rfl, ?_⟩
  rw [hrelease rfl 1 (by rw [hqueue]; decide), hqueue]
  rfl

/-- After a wait that timed out, an automatic barrier for two threads counts a thread that
does not wait any more, and releases the next thread alone. -/
theorem barrier_counts_timed_out_thread :
    ∃ b : Control Nat,
      Run step Legal (create ⟨.automaticRelease, 2⟩) [.wait 0, .timeout 0] b ∧
      b.waitQueue = [] ∧ b.numberOfWaitingThreads = 1 ∧
      (seize b 1).2 = [(1, .automaticallyReleased)] :=
  ⟨_, .of_exec rfl, rfl, rfl, rfl⟩

end Rtems.Barrier
