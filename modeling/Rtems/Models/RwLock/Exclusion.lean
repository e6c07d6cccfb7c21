import Mathlib.Data.List.TakeWhile
import Rtems.Models.RwLock.State

/-!
# Reader/writer exclusion

The lock's own state agrees with the threads that were told that they hold it, as long as its
count of the readers does not wrap around. A release without a remaining holder hands the lock to
the first writer alone, or to all readers in front of the first writer.
-/

namespace Rtems.RwLock

open WaitQueue

variable {T : Type}

/-- The waiting threads that get a free lock: the first one if it wants to write, and
otherwise the longest run of readers at the head of the queue. -/
def nextHolders : List (Request T) → List (Request T)
  | [] => []
  | w :: rest =>
    match w.option with
    | .write => [w]
    | .read => w :: rest.takeWhile (·.option = .read)

/-- The lock's state says who holds it. -/
def WellHeld (s : State T) : Prop :=
  match s.lock.currentState with
  | .unlocked => s.holders = [] ∧ s.lock.numberOfReaders = 0 ∧ s.queue = []
  | .lockedForReading =>
    s.holders ≠ [] ∧ (∀ h ∈ s.holders, h.option = .read) ∧
      s.lock.numberOfReaders.toNat = s.holders.length
  | .lockedForWriting =>
    (∃ thread, s.holders = [⟨thread, .write⟩]) ∧ s.lock.numberOfReaders = 0

/-- A lock that was given to readers goes to all readers up to the first writer. -/
theorem flush_lockedForReading (readers : UInt32) (queue : List (Request T)) :
    flushCritical flushFilter ⟨.lockedForReading, readers⟩ queue =
      ⟨queue.takeWhile (·.option = .read),
        ⟨.lockedForReading, readers + .ofNat (queue.takeWhile (·.option = .read)).length⟩,
        queue.dropWhile (·.option = .read)⟩ := by
  induction queue generalizing readers with
  | nil =>
    have hzero : readers + .ofNat 0 = readers := UInt32.add_zero readers
    simp only [List.takeWhile_nil, List.dropWhile_nil, List.length_nil, hzero]
    rfl
  | cons w rest ih =>
    obtain ⟨thread, option⟩ := w
    cases option with
    | read =>
      have haccept : flushFilter ⟨thread, .read⟩ ⟨.lockedForReading, readers⟩ =
          some ⟨.lockedForReading, readers + 1⟩ := rfl
      have htake : (Request.mk thread .read :: rest).takeWhile (·.option = .read) =
          ⟨thread, .read⟩ :: rest.takeWhile (·.option = .read) := by simp
      rw [flushCritical_accepted rest haccept, ih, htake, List.length_cons, UInt32.ofNat_add]
      simp only [List.dropWhile_cons, decide_true, if_true, UInt32.add_assoc,
        UInt32.add_comm (UInt32.ofNat _) (UInt32.ofNat 1)]
      rfl
    | write =>
      rw [flushCritical_refused rest rfl]
      simp

theorem handOver_read (lock : Control) (thread : T) (rest : List (Request T)) :
    handOver lock (⟨thread, .read⟩ :: rest) =
      ⟨⟨thread, .read⟩ :: rest.takeWhile (·.option = .read),
        ⟨.lockedForReading, 1 + .ofNat (rest.takeWhile (·.option = .read)).length⟩,
        rest.dropWhile (·.option = .read)⟩ := by
  rw [handOver, flushCritical_accepted rest rfl, flush_lockedForReading]

theorem handOver_write (lock : Control) (thread : T) (rest : List (Request T)) :
    handOver lock (⟨thread, .write⟩ :: rest) =
      ⟨[⟨thread, .write⟩], ⟨.lockedForWriting, lock.numberOfReaders⟩, rest⟩ := by
  rw [handOver, flushCritical_accepted rest rfl]
  -- a lock that was given to a writer stops the flush
  cases rest with
  | nil => rfl
  | cons w rest => rw [flushCritical_refused rest rfl]

/-- A free lock goes to the threads at the head of the queue that can share it. -/
theorem handOver_extracted (lock : Control) (queue : List (Request T)) :
    (handOver lock queue).extracted = nextHolders queue := by
  cases queue with
  | nil => rfl
  | cons w rest =>
    obtain ⟨thread, option⟩ := w
    cases option with
    | read =>
      rw [handOver_read]
      rfl
    | write =>
      rw [handOver_write]
      rfl

/-- After a hand-over to not too many readers the lock's state says who holds it. -/
theorem handOver_wellHeld (lock : Control) (hreaders : lock.numberOfReaders = 0)
    (queue : List (Request T)) (hqueue : (queue.takeWhile (·.option = .read)).length < 2 ^ 32) :
    WellHeld ⟨(handOver lock queue).object, (handOver lock queue).queue, nextHolders queue⟩ := by
  cases queue with
  | nil => exact ⟨rfl, hreaders, rfl⟩
  | cons w rest =>
    obtain ⟨thread, option⟩ := w
    cases option with
    | read =>
      rw [handOver_read]
      refine ⟨List.cons_ne_nil _ _, ?_, ?_⟩
      · intro h hmem
        rcases List.mem_cons.mp hmem with rfl | hmem
        · rfl
        · simpa using List.mem_takeWhile_imp hmem
      · simp only [List.takeWhile_cons, decide_true, if_true, List.length_cons] at hqueue
        simp only [nextHolders, List.length_cons, UInt32.toNat_add, UInt32.toNat_ofNat',
          UInt32.toNat_one]
        omega
    | write =>
      rw [handOver_write]
      exact ⟨⟨thread, rfl⟩, hreaders⟩

section

variable {s : State T} (hs : WellHeld s)
include hs

/-- An acquisition that finds the lock free, or shared by readers alone, keeps the lock's
state in step with the holders; one that does not changes no holder. -/
theorem WellHeld.seizeForReading (hbound : s.holders.length + 1 < 2 ^ 32) (executing : T)
    (wait : Bool) : WellHeld (seizeForReading s executing wait).1 := by
  obtain ⟨⟨state, readers⟩, queue, holders⟩ := s
  cases state with
  | unlocked =>
    obtain ⟨rfl, rfl, rfl⟩ := hs
    refine ⟨List.cons_ne_nil _ _, ?_, rfl⟩
    intro h hmem
    rw [List.mem_singleton.mp hmem]
  | lockedForReading =>
    obtain ⟨hne, hread, hcount⟩ := hs
    cases queue with
    | nil =>
      have hlength : (readers + 1).toNat = (holders ++ [Request.mk executing .read]).length := by
        rw [List.length_append, List.length_singleton, UInt32.toNat_add,
          show readers.toNat = holders.length from hcount]
        exact Nat.mod_eq_of_lt hbound
      refine ⟨List.append_ne_nil_of_right_ne_nil _ (List.cons_ne_nil _ _), ?_, hlength⟩
      intro h hmem
      rcases List.mem_append.mp hmem with hmem | hmem
      · exact hread h hmem
      · rw [List.mem_singleton.mp hmem]
    | cons w rest =>
      cases wait with
      | true => exact ⟨hne, hread, hcount⟩
      | false => exact ⟨hne, hread, hcount⟩
  | lockedForWriting =>
    cases wait with
    | true => exact hs
    | false => exact hs

/-- The same for a writer. -/
theorem WellHeld.seizeForWriting (executing : T) (wait : Bool) :
    WellHeld (seizeForWriting s executing wait).1 := by
  obtain ⟨⟨state, readers⟩, queue, holders⟩ := s
  cases state with
  | unlocked =>
    obtain ⟨rfl, rfl, rfl⟩ := hs
    exact ⟨⟨executing, rfl⟩, rfl⟩
  | lockedForReading =>
    cases wait with
    | true => exact hs
    | false => exact hs
  | lockedForWriting =>
    cases wait with
    | true => exact hs
    | false => exact hs

/-- A timeout only takes a thread off the queue. -/
theorem WellHeld.timeout [DecidableEq T] (thread : T) :
    WellHeld (timeout s thread).1 := by
  unfold RwLock.timeout
  split
  · obtain ⟨⟨state, readers⟩, queue, holders⟩ := s
    cases state with
    | unlocked =>
      obtain ⟨hholders, hreaders, rfl⟩ := hs
      exact ⟨hholders, hreaders, rfl⟩
    | lockedForReading => exact hs
    | lockedForWriting => exact hs
  · exact hs

/-- A release with holders left keeps the queue; one that leaves no holder hands the lock
over. -/
theorem surrender_cases [DecidableEq T] {executing : T}
    (hholds : ∃ h ∈ s.holders, h.thread = executing) :
    if s.holders.eraseP (·.thread = executing) = [] then
      ∃ lock, lock.numberOfReaders = 0 ∧ surrender s executing =
        ⟨(handOver lock s.queue).object, (handOver lock s.queue).queue, nextHolders s.queue⟩
    else
      s.lock.currentState = .lockedForReading ∧ surrender s executing =
        ⟨⟨.lockedForReading, s.lock.numberOfReaders - 1⟩, s.queue,
          s.holders.eraseP (·.thread = executing)⟩ := by
  obtain ⟨⟨state, readers⟩, queue, holders⟩ := s
  obtain ⟨h, hmem, hthread⟩ := hholds
  have hlength : (holders.eraseP (·.thread = executing)).length = holders.length - 1 :=
    List.length_eraseP_of_mem hmem (by simpa using hthread)
  cases state with
  | unlocked =>
    obtain ⟨rfl, -, -⟩ := hs
    exact absurd hmem List.not_mem_nil
  | lockedForReading =>
    obtain ⟨-, -, hcount⟩ := hs
    have hcount : (readers - 1).toNat = holders.length - 1 := by
      rw [UInt32.toNat_sub_of_le, show readers.toNat = holders.length from hcount]
      · rfl
      · rw [UInt32.le_iff_toNat_le, show readers.toNat = holders.length from hcount]
        exact List.length_pos_of_mem hmem
    split
    next hnone =>
      have hlast : readers - 1 = 0 := by
        rw [← UInt32.toNat_inj, hcount, ← hlength, hnone]
        rfl
      refine ⟨⟨.lockedForReading, readers - 1⟩, hlast, ?_⟩
      simp only [surrender, surrenderLock, hlast, ne_eq, not_true_eq_false, if_false, hnone,
        handOver_extracted, List.nil_append]
    next hsome =>
      have hmore : readers - 1 ≠ 0 := by
        rw [ne_eq, ← UInt32.toNat_inj, hcount, ← hlength]
        exact fun h0 => hsome (List.eq_nil_of_length_eq_zero h0)
      refine ⟨rfl, ?_⟩
      simp only [surrender, surrenderLock, if_pos hmore, List.append_nil]
  | lockedForWriting =>
    obtain ⟨⟨thread, rfl⟩, hreaders⟩ := hs
    have hnone : [Request.mk thread .write].eraseP (·.thread = executing) = [] :=
      List.eq_nil_of_length_eq_zero hlength
    rw [if_pos hnone]
    refine ⟨⟨.lockedForWriting, readers⟩, hreaders, ?_⟩
    simp only [surrender, surrenderLock, hnone, handOver_extracted, List.nil_append]

/-- A release by a holder keeps the lock's state in step with the holders. -/
theorem WellHeld.surrender [DecidableEq T] {executing : T}
    (hholds : ∃ h ∈ s.holders, h.thread = executing)
    (hqueue : (s.queue.takeWhile (·.option = .read)).length < 2 ^ 32) :
    WellHeld (surrender s executing) := by
  have hcases := surrender_cases hs hholds
  split at hcases
  next hnone =>
    obtain ⟨lock, hreaders, heq⟩ := hcases
    rw [heq]
    exact handOver_wellHeld lock hreaders s.queue hqueue
  next hsome =>
    obtain ⟨hstate, heq⟩ := hcases
    obtain ⟨h, hmem, hthread⟩ := hholds
    simp only [WellHeld, hstate] at hs
    rw [heq]
    refine ⟨hsome, fun h hmem => hs.2.1 h (List.mem_of_mem_eraseP hmem), ?_⟩
    show (s.lock.numberOfReaders - 1).toNat = _
    rw [List.length_eraseP_of_mem hmem (by simpa using hthread), UInt32.toNat_sub_of_le, hs.2.2]
    · rfl
    · rw [UInt32.le_iff_toNat_le, hs.2.2]
      exact List.length_pos_of_mem hmem

end

/-- The count of the readers does not wrap around: an acquisition for reading finds fewer than
`2 ^ 32 - 1` acquisitions that are not released, and a release fewer than `2 ^ 32` readers at the
head of the queue. -/
def Counted (s : State T) : Op T → Prop
  | .seizeForReading _ _ => s.holders.length + 1 < 2 ^ 32
  | .seizeForWriting _ _ => True
  | .timeout _ => True
  | .surrender _ => (s.queue.takeWhile (·.option = .read)).length < 2 ^ 32

instance (s : State T) (op : Op T) : Decidable (Counted s op) :=
  match op with
  | .seizeForReading _ _ => inferInstanceAs (Decidable (_ < _))
  | .seizeForWriting _ _ => inferInstanceAs (Decidable True)
  | .timeout _ => inferInstanceAs (Decidable True)
  | .surrender _ => inferInstanceAs (Decidable (_ < _))

theorem WellHeld.step [DecidableEq T] {s s' : State T} {op : Op T} (hs : WellHeld s)
    (hop : Legal s op) (hcounted : Counted s op) (hstep : RwLock.step s op = some s') :
    WellHeld s' := by
  cases op with
  | seizeForReading thread wait =>
    exact Option.some.inj hstep ▸ hs.seizeForReading hcounted thread wait
  | seizeForWriting thread wait => exact Option.some.inj hstep ▸ hs.seizeForWriting thread wait
  | timeout thread => exact Option.some.inj hstep ▸ hs.timeout thread
  | surrender thread => exact Option.some.inj hstep ▸ hs.surrender hop.2 hcounted

/-- In every state reached without a wrap-around of the count, nobody holds the lock and nobody
waits for it, or one writer holds it alone, or readers hold it, as many as the lock counts; and a
release that leaves no holder grants the lock to exactly the threads at the head of the queue that
can share it, while any other release grants nothing. -/
theorem reader_writer_exclusion [DecidableEq T] {ops : List (Op T)} {s : State T}
    (hrun : Run step (fun s op => Legal s op ∧ Counted s op) start ops s) :
    ((s.lock.currentState = .unlocked ∧ s.holders = [] ∧ s.queue = []) ∨
      (s.lock.currentState = .lockedForWriting ∧ ∃ thread, s.holders = [⟨thread, .write⟩]) ∨
      (s.lock.currentState = .lockedForReading ∧ s.holders ≠ [] ∧
        (∀ h ∈ s.holders, h.option = .read) ∧
        s.lock.numberOfReaders.toNat = s.holders.length)) ∧
    ∀ executing, Legal s (.surrender executing) →
      ∃ s', step s (.surrender executing) = some s' ∧
        if s.holders.eraseP (·.thread = executing) = [] then
          s'.holders = nextHolders s.queue ∧ nextHolders s.queue ++ s'.queue = s.queue
        else s'.holders = s.holders.eraseP (·.thread = executing) ∧ s'.queue = s.queue := by
  have hheld : WellHeld s := hrun.invariant WellHeld ⟨rfl, rfl, rfl⟩
    (fun _ _ _ hs hop hstep => hs.step hop.1 hop.2 hstep)
  constructor
  · unfold WellHeld at hheld
    split at hheld
    next hstate => exact Or.inl ⟨hstate, hheld.1, hheld.2.2⟩
    next hstate => exact Or.inr (Or.inr ⟨hstate, hheld⟩)
    next hstate => exact Or.inr (Or.inl ⟨hstate, hheld.1⟩)
  · intro executing hlegal
    refine ⟨surrender s executing, rfl, ?_⟩
    have hcases := surrender_cases hheld hlegal.2
    split at hcases
    next hnone =>
      obtain ⟨lock, -, heq⟩ := hcases
      rw [if_pos hnone, heq]
      rw [← handOver_extracted lock s.queue]
      exact ⟨rfl, flushCritical_append ..⟩
    next hsome =>
      rw [if_neg hsome, hcases.2]
      exact ⟨rfl, rfl⟩

/-- A writer works while two readers, a writer and a third reader queue up, and the second
reader gives up. -/
private def crowd : List (Op Nat) :=
  [.seizeForWriting 0 true, .seizeForReading 1 true, .seizeForReading 2 true,
    .seizeForReading 3 true, .seizeForWriting 4 true, .seizeForReading 5 true,
    .seizeForReading 6 false, .timeout 2]

/-- The first writer's release grants the lock to the two readers before the next writer. -/
theorem reader_writer_exclusion_crowd :
    ∃ s : State Nat, Run step (fun s op => Legal s op ∧ Counted s op) start crowd s ∧
      (∃ thread, s.holders = [⟨thread, .write⟩]) ∧
      ∃ s', step s (.surrender 0) = some s' ∧ s'.holders = [⟨1, .read⟩, ⟨3, .read⟩] ∧
        s'.queue = [⟨4, .write⟩, ⟨5, .read⟩] := by
  obtain ⟨s, hrun, hs⟩ : ∃ s, Run step (fun s op => Legal s op ∧ Counted s op) start crowd s ∧
      s = ⟨⟨.lockedForWriting, 0⟩,
        [⟨1, .read⟩, ⟨3, .read⟩, ⟨4, .write⟩, ⟨5, .read⟩], [⟨0, .write⟩]⟩ := ⟨_, .of_exec rfl, rfl⟩
  obtain ⟨hheld, hrelease⟩ := reader_writer_exclusion hrun
  obtain ⟨s', hstep, hgrant⟩ := hrelease 0 (by rw [hs]; decide)
  subst hs
  refine ⟨_, hrun, ?_, s', hstep, hgrant.1, List.append_cancel_left hgrant.2⟩
  rcases hheld with ⟨hstate, -⟩ | ⟨-, hwriter⟩ | ⟨hstate, -⟩
  · exact absurd hstate (by decide)
  · exact hwriter
  · exact absurd hstate (by decide)

/-- A thread acquires the lock for reading again and again. -/
theorem run_readers (n : Nat) :
    Run step Legal start (List.replicate (n + 1) (.seizeForReading 0 false))
      (⟨⟨.lockedForReading, .ofNat (n + 1)⟩, [], List.replicate (n + 1) ⟨0, .read⟩⟩ :
        State Nat) := by
  induction n with
  | zero => exact .snoc .nil (by decide) rfl
  | succ n ih =>
    rw [List.replicate_succ', List.replicate_succ' (a := Request.mk 0 Access.read)]
    refine ih.snoc (fun w hw => absurd hw List.not_mem_nil) ?_
    rw [UInt32.ofNat_add (n + 1) 1]
    rfl

/-- A thread that acquires the lock `2 ^ 32 + 1` times for reading and releases it once holds it
beside a writer. -/
theorem writer_joins_readers :
    ∃ s : State Nat, Run step Legal start (List.replicate (2 ^ 32 + 1) (.seizeForReading 0 false) ++
        [.surrender 0] ++ [.seizeForWriting 1 false]) s ∧
      s.lock.currentState = .lockedForWriting ∧ ⟨0, .read⟩ ∈ s.holders ∧
      ⟨1, .write⟩ ∈ s.holders := by
  obtain ⟨n, hn⟩ : ∃ n : Nat, n = 2 ^ 32 := ⟨_, rfl⟩
  have hone : UInt32.ofNat (n + 1) = 1 := by rw [hn]; rfl
  rw [← hn]
  have hread := run_readers n
  rw [hone] at hread
  have hlast : surrenderLock ⟨.lockedForReading, 1⟩ ([] : List (Request Nat)) =
      ⟨[], ⟨.unlocked, 0⟩, []⟩ := rfl
  have hrelease : step (⟨⟨.lockedForReading, 1⟩, [], List.replicate (n + 1) ⟨0, .read⟩⟩ : State Nat)
      (.surrender 0) = some ⟨⟨.unlocked, 0⟩, [], List.replicate n ⟨0, .read⟩⟩ := by
    simp only [step, surrender, hlast, List.replicate_succ, List.eraseP_cons, decide_true, cond_true,
      List.append_nil]
  refine ⟨_, (hread.snoc ?_ hrelease).snoc ?_ rfl, rfl, ?_, ?_⟩
  · exact ⟨fun w hw => absurd hw List.not_mem_nil, _, List.mem_cons_self, rfl⟩
  · exact fun w hw => absurd hw List.not_mem_nil
  · exact List.mem_append_left _ (List.mem_replicate.mpr ⟨by omega, rfl⟩)
  · exact List.mem_append_right _ (List.mem_singleton.mpr rfl)

end Rtems.RwLock
