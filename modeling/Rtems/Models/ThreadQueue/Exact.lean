import Rtems.Models.ThreadQueue.System

/-!
# Priority inheritance is exact

In every state between two operations the effective priority of a thread is the least
of its own priorities and of the effective priorities of the threads that wait, directly
or through others, for a queue it owns. Its tree holds exactly its own nodes and one node
for each owned queue with waiters.
-/

namespace Rtems.ThreadQueue

variable {T Q N : Type*} {C : Config T N} {own : T → N → Prop} {s : State T Q N} {t u : T}

/-- The first thread waits, directly or through others, for a queue of the second one. -/
def WaitsThrough (s : State T Q N) : T → T → Prop :=
  Relation.TransGen (WaitsFor s.waits s.owner)

/-- The priorities that a thread has to follow. -/
def demands (own : T → N → Prop) (s : State T Q N) (t : T) : Set Nat :=
  {p | ∃ node, own t node ∧ s.nodePriority node = p} ∪
    {p | ∃ u, WaitsThrough s u t ∧ s.priority u = p}

/-- The own priorities of a thread and of all threads that wait for it. -/
def nodesThrough (own : T → N → Prop) (s : State T Q N) (t : T) : Set Nat :=
  {p | ∃ u node, Relation.ReflTransGen (WaitsFor s.waits s.owner) u t ∧ own u node ∧
    s.nodePriority node = p}

section

variable (h : Invariant C own s)
include h

/-- A thread that waits for a queue is not more urgent than the queue's owner. -/
theorem Invariant.priority_le (hu : WaitsFor s.waits s.owner u t) :
    s.priority t ≤ s.priority u := by
  obtain ⟨q, hq, ho⟩ := hu
  have hwaiter : u ∈ s.waiters q := ((h.settled.queues q).mem u).mpr ⟨hq, id⟩
  have hthread := h.settled.threads t
  have hmem : .queue q ∈ (s.thread t).waitPriority.contributors :=
    (hthread.mem (.queue q)).mpr ⟨ho, u, hwaiter⟩
  have hqueue := ((h.settled.queues q).ok.isLeast (List.ne_nil_of_mem hwaiter)).2
    ⟨u, hwaiter, rfl⟩
  exact ((hthread.ok.isLeast (List.ne_nil_of_mem hmem)).2 ⟨_, hmem, rfl⟩).trans hqueue

theorem Invariant.priority_le_of_waitsThrough (hu : WaitsThrough s u t) :
    s.priority t ≤ s.priority u := by
  induction hu with
  | single hedge => exact h.priority_le hedge
  | tail _ hedge ih => exact (h.priority_le hedge).trans ih

/-- The effective priority comes from an own node or from a direct waiter. -/
theorem Invariant.exists_source (t : T) :
    (∃ node, own t node ∧ s.nodePriority node = s.priority t) ∨
      ∃ u, WaitsFor s.waits s.owner u t ∧ s.priority u = s.priority t := by
  have hthread := h.settled.threads t
  have hreal := (hthread.mem (.own (C.realPriority t))).mpr (h.real t)
  obtain ⟨⟨c, hc, hkey⟩, -⟩ := hthread.ok.isLeast (List.ne_nil_of_mem hreal)
  have hwanted := (hthread.mem c).mp hc
  cases c with
  | own node => exact .inl ⟨node, hwanted, hkey⟩
  | queue q =>
    obtain ⟨ho, v, hv⟩ := hwanted
    obtain ⟨⟨u, hu, hpriority⟩, -⟩ := (h.settled.queues q).ok.isLeast (List.ne_nil_of_mem hv)
    have hwait := ((h.settled.queues q).mem u).mp hu
    exact .inr ⟨u, ⟨q, hwait.1, ho⟩, hpriority.trans hkey⟩

/-- The effective priority is the least demanded one. -/
theorem Invariant.isLeast_demands (t : T) :
    IsLeast (demands own s t) (s.priority t) := by
  constructor
  · rcases h.exists_source t with hnode | ⟨u, hu, hpriority⟩
    · exact .inl hnode
    · exact .inr ⟨u, .single hu, hpriority⟩
  · rintro p (⟨node, hnode, rfl⟩ | ⟨u, hu, rfl⟩)
    · have hthread := h.settled.threads t
      have hmem := (hthread.mem (.own node)).mpr hnode
      exact (hthread.ok.isLeast (List.ne_nil_of_mem hmem)).2 ⟨_, hmem, rfl⟩
    · exact h.priority_le_of_waitsThrough hu

/-- The effective priority is the least of the own priorities of the thread and of all
threads that wait for it. -/
theorem Invariant.isLeast_nodesThrough (t : T) :
    IsLeast (nodesThrough own s t) (s.priority t) := by
  constructor
  · induction (h.acyclic.wellFounded_waiters h.finite).apply t with
    | intro t _ ih =>
      rcases h.exists_source t with ⟨node, hnode, hpriority⟩ | ⟨u, hu, hpriority⟩
      · exact ⟨t, node, .refl, hnode, hpriority⟩
      · obtain ⟨v, node, hpath, hnode, hnodePriority⟩ := ih u hu
        exact ⟨v, node, hpath.tail hu, hnode, hnodePriority.trans hpriority⟩
  · rintro p ⟨u, node, hpath, hnode, rfl⟩
    have hu : s.priority u ≤ s.nodePriority node :=
      (h.isLeast_demands u).2 (.inl ⟨node, hnode, rfl⟩)
    rcases Relation.reflTransGen_iff_eq_or_transGen.mp hpath with rfl | hpath
    · exact hu
    · exact (h.priority_le_of_waitsThrough hpath).trans hu

/-- What belongs in the tree of a thread, in terms of the waits. -/
theorem Invariant.mem_contributors (t : T) (c : Contributor N Q) :
    c ∈ (s.thread t).waitPriority.contributors ↔
      match c with
      | .own node => own t node
      | .queue q => s.owner q = some t ∧ ∃ u, s.waits u = some q := by
  rw [(h.settled.threads t).mem]
  cases c with
  | own node => exact .rfl
  | queue q =>
    refine and_congr_right fun _ => exists_congr fun u => ?_
    exact ((h.settled.queues q).mem u).trans (and_iff_left id)

end

variable [DecidableEq T] [DecidableEq Q] [DecidableEq N]

/-- Priority inheritance is exact in every state reached, every tree holds the right nodes
once, and every legal operation completes. -/
theorem priority_inheritance_exact {start : State T Q N} {actions : List (Nat × Op T Q N)}
    (hstart : Initialized C start)
    (hrun : Run (step C) (fun s action => Legal C s action.2) start actions s) :
    (∀ t, IsLeast (demands (ownNodes C actions) s t) (s.priority t)) ∧
    (∀ t, (s.thread t).waitPriority.contributors.Nodup ∧
      ∀ c, c ∈ (s.thread t).waitPriority.contributors ↔
        match c with
        | .own node => ownNodes C actions t node
        | .queue q => s.owner q = some t ∧ ∃ u, s.waits u = some q) ∧
    ∀ op, Legal C s op → ∃ s', Returns (fun fuel => step C s (fuel, op)) s' := by
  obtain ⟨hinvariant, halive⟩ := invariant_of_run hstart hrun
  refine ⟨hinvariant.isLeast_demands, fun t => ⟨?_, hinvariant.mem_contributors t⟩, ?_⟩
  · exact (hinvariant.settled.threads t).ok.nodup
  · intro op hlegal
    obtain ⟨s', hret, -⟩ := step_spec hinvariant halive hlegal
    exact ⟨s', hret⟩

/-- Three threads wait in a chain; a new node of the last one reaches the first one. -/
theorem priority_inheritance_exact_chain :
    ∃ s, Run (step threeThreads) (fun s action => Legal threeThreads s action.2) atRest
        [(9, .seize 0 0 true), (9, .seize 1 1 true), (9, .seize 0 1 true), (9, .seize 1 2 true),
          (9, .priorityAdd 2 3 0)] s ∧
      s.priority 0 = 0 ∧ IsLeast (demands (ownNodes threeThreads
        [(9, .seize 0 0 true), (9, .seize 1 1 true), (9, .seize 0 1 true), (9, .seize 1 2 true),
          (9, .priorityAdd 2 3 0)]) s 0) 0 := by
  refine Run.exists_of_map_exec (fun s => s.priority 0) 0 (by decide) ?_
  intro s hrun hpriority
  refine ⟨hpriority, ?_⟩
  have hexact := (priority_inheritance_exact initialized_atRest hrun).1 0
  rwa [hpriority] at hexact

end Rtems.ThreadQueue
