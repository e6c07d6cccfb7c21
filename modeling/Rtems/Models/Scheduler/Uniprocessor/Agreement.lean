import Rtems.Models.Scheduler.Uniprocessor.Priority
import Rtems.Models.Scheduler.Uniprocessor.Simple

/-!
# Agreement of the fixed-priority schedulers

The sorted chain of the simple scheduler is the concatenation of the chains of the
deterministic one. Every operation keeps this correspondence and gives both
processors the same heir, apart from two differences in the code: the simple
scheduler does not force the new heir of a yield, and it places a thread anew when its
priority is updated to the value it already has.
-/

namespace Rtems.Scheduler.Uniprocessor

variable {T : Type*} [DecidableEq T]

/-- The ready queues hold the groups of the ready chain and the nodes of the ready
threads name their groups. -/
structure Corresponds (maximumPriority : Nat) (thread : T → Thread) (ready : List T)
    (context : Priority.Context T) : Prop where
  ordered : Simple.Ordered maximumPriority thread ready
  holds : context.queues.Holds (Simple.group thread ready)
  node : ∀ t, context.node t = .update (context.node t).currentPriority
  current : ∀ t ∈ ready, (context.node t).currentPriority = (thread t).priority

/-- Both systems have the same threads and processor, and corresponding contexts. -/
structure Agree (maximumPriority : Nat) (s : State T (List T))
    (d : State T (Priority.Context T)) : Prop where
  thread : d.thread = s.thread
  cpu : d.cpu = s.cpu
  context : Corresponds maximumPriority s.thread s.context d.context

section Correspondence

variable {maximumPriority : Nat} {thread : T → Thread} {ready : List T}
  {context : Priority.Context T} {t : T} {x : Thread}

omit [DecidableEq T] in
/-- Both schedulers choose the same first thread. -/
theorem Corresponds.first_eq (h : Corresponds maximumPriority thread ready context)
    (hmax : maximumPriority ≤ 255) : context.queues.first = ready.head? := by
  refine h.holds.first_eq_head h.ordered.sorted ?_
  intro u _
  have := h.ordered.le_maximum u
  omega

omit [DecidableEq T] in
/-- The node of a ready thread is the one computed from its priority. -/
theorem Corresponds.node_eq (h : Corresponds maximumPriority thread ready context)
    (ht : t ∈ ready) : context.node t = .update (thread t).priority := by
  rw [h.node t, h.current t ht]

omit [DecidableEq T] in
/-- A ready thread is in its group. -/
private theorem mem_group (ht : t ∈ ready) :
    t ∈ Simple.group thread ready (thread t).priority := by
  simpa [Simple.group] using ht

section

variable (h : Corresponds maximumPriority thread ready context)
include h

/-- Extraction of a thread that is no longer ready keeps the correspondence. -/
theorem Corresponds.extract (hmax : maximumPriority ≤ 255) (ht : t ∈ ready) (hr : x.isReady = false)
    (hx : x.Valid maximumPriority) :
    Corresponds maximumPriority (Function.update thread t x) (ready.erase t)
      { context with queues := context.queues.extract t (context.node t) } where
  ordered := h.ordered.erase hr hx
  holds := by
    have hle := h.ordered.le_maximum t
    rw [Simple.group_erase h.ordered.nodup, h.node_eq ht]
    exact h.holds.extract (by omega) (mem_group ht)
  node := h.node
  current u hu := by
    have hu' := h.ordered.nodup.mem_erase_iff.mp hu
    simpa [hu'.1] using h.current u hu'.2

private theorem Corresponds.node_update
    (p : Nat) (u : T) : Function.update context.node t (.update p) u =
      .update (Function.update context.node t (ReadyQueue.update p) u).currentPriority := by
  by_cases hut : u = t
  · subst hut
    simp
  · simpa [hut] using h.node u

private theorem Corresponds.current_update {before : T → Bool} {u : T}
    (hu : u ∈ insertBefore before t ready) :
    (Function.update context.node t (ReadyQueue.update x.priority) u).currentPriority =
      (Function.update thread t x u).priority := by
  by_cases hut : u = t
  · subst hut
    simp
  · have hu' : u ∈ ready := by simpa [hut] using hu
    simpa [hut] using h.current u hu'

section

variable (hmax : maximumPriority ≤ 255) (ht : t ∉ ready) (hr : x.isReady = true)
  (hx : x.Valid maximumPriority)
include hmax ht hr hx

/-- Enqueueing a thread that becomes ready keeps the correspondence. -/
theorem Corresponds.enqueue :
    Corresponds maximumPriority (Function.update thread t x)
      (insertBefore (fun next => decide ((Function.update thread t x t).priority <
        (Function.update thread t x next).priority)) t ready)
      ⟨context.queues.enqueue t (.update x.priority),
        Function.update context.node t (.update x.priority)⟩ where
  ordered := h.ordered.insertFifo ht hr hx
  holds := by
    have hle := hx.2
    rw [Simple.group_insertFifo h.ordered.sorted ht]
    exact h.holds.enqueue (by omega) t
  node := h.node_update x.priority
  current _ hu := h.current_update hu

/-- Enqueueing a thread as the first of its group keeps the correspondence. -/
theorem Corresponds.enqueueFirst :
    Corresponds maximumPriority (Function.update thread t x)
      (insertBefore (fun next => decide ((Function.update thread t x t).priority ≤
        (Function.update thread t x next).priority)) t ready)
      ⟨context.queues.enqueueFirst t (.update x.priority),
        Function.update context.node t (.update x.priority)⟩ where
  ordered := h.ordered.insertLifo ht hr hx
  holds := by
    have hle := hx.2
    rw [Simple.group_insertLifo h.ordered.sorted ht]
    exact h.holds.enqueueFirst (by omega) t
  node := h.node_update x.priority
  current _ hu := h.current_update hu

end

/-- Moving a thread behind the others of its priority keeps the correspondence. -/
theorem Corresponds.rotate (ht : t ∈ ready) :
    Corresponds maximumPriority thread
      (insertBefore (fun next => decide ((thread t).priority < (thread next).priority)) t
        (ready.erase t))
      { context with queues := context.queues.rotate t (context.node t) } := by
  have hr := (h.ordered.mem_iff t).mp ht
  have herase : Simple.Ordered maximumPriority
      (Function.update thread t ((thread t).withReady false)) (ready.erase t) :=
    h.ordered.erase rfl (h.ordered.valid t)
  have hord := herase.insertFifo h.ordered.nodup.not_mem_erase hr (h.ordered.valid t)
  have hgroup := Simple.group_reinsertFifo (t := t) (x := thread t) h.ordered rfl
  simp only [Function.update_idem, Function.update_eq_self] at hord hgroup
  refine ⟨hord, ?_, h.node, ?_⟩
  · rw [hgroup, h.node_eq ht]
    exact h.holds.rotate (mem_group ht)
  · intro u hu
    refine h.current u ?_
    rcases mem_insertBefore.mp hu with rfl | hu
    · exact ht
    · exact List.mem_of_mem_erase hu

/-- New fields of a thread that keep its readiness and, if it is ready, its priority. -/
theorem Corresponds.setThread (hr : x.isReady = (thread t).isReady) (hx : x.Valid maximumPriority)
    (hp : t ∈ ready → x.priority = (thread t).priority) :
    Corresponds maximumPriority (Function.update thread t x) ready context := by
  have hpri : ∀ u ∈ ready, (Function.update thread t x u).priority = (thread u).priority := by
    intro u hu
    by_cases hut : u = t
    · subst hut
      simpa using hp hu
    · simp [hut]
  have hgroup : Simple.group (Function.update thread t x) ready = Simple.group thread ready := by
    funext p
    refine List.filter_congr ?_
    intro u hu
    rw [hpri u hu]
  refine ⟨⟨h.ordered.nodup, ?_, h.ordered.sorted.congr ?_, ?_, ?_⟩, ?_, h.node, ?_⟩
  · intro u
    by_cases hut : u = t
    · subst hut
      simp [h.ordered.mem_iff, hr]
    · simp [h.ordered.mem_iff, hut]
  · exact fun u hu => (hpri u hu).symm
  · intro u
    by_cases hut : u = t
    · subst hut
      simpa using hx.1
    · simpa [hut] using h.ordered.value_eq u
  · intro u
    by_cases hut : u = t
    · subst hut
      simpa using hx.2
    · simpa [hut] using h.ordered.le_maximum u
  · rw [hgroup]
    exact h.holds
  · intro u hu
    rw [hpri u hu]
    exact h.current u hu

end

end Correspondence

variable {force : Bool} {Q : Type*} {l : List T} {p : Nat} {b : Bool} {op : Op T}

section Steps

variable {maximumPriority : Nat} {s s' : State T (List T)} {d : State T (Priority.Context T)}
  {t : T}

section

variable (h : Agree maximumPriority s d)
include h

/-- The same new heir is adopted by both or by none. -/
theorem Agree.updateHeir (newHeir : T) (force : Bool) :
    Agree maximumPriority (updateHeir s newHeir force) (updateHeir d newHeir force) where
  thread := by simpa using h.thread
  cpu := by
    unfold Uniprocessor.updateHeir
    rw [h.thread, h.cpu]
    split
    · rfl
    · exact h.cpu
  context := by simpa using h.context

theorem Agree.scheduleBody (hmax : maximumPriority ≤ 255)
    (hs : Simple.scheduleBody s force = some s') :
    ∃ d', Priority.scheduleBody d force = some d' ∧ Agree maximumPriority s' d' := by
  obtain ⟨heir, hheir, rfl⟩ := Option.map_eq_some_iff.mp hs
  refine ⟨Uniprocessor.updateHeir d heir force, ?_, h.updateHeir heir force⟩
  rw [Priority.scheduleBody, h.context.first_eq hmax, hheir, Option.map_some]

theorem Agree.extract (hmax : maximumPriority ≤ 255)
    (ht : (s.thread t).isReady = true) {f : Thread → Thread}
    (hr : (f (s.thread t)).isReady = false) (hx : (f (s.thread t)).Valid maximumPriority) :
    Agree maximumPriority (Simple.extract (s.setThread t f) t)
      (Priority.extractBody (d.setThread t f) t) where
  thread := by simp [Simple.extract, Priority.extractBody, State.setThread, h.thread]
  cpu := h.cpu
  context := h.context.extract hmax ((h.context.ordered.mem_iff t).mpr ht) hr hx

omit [DecidableEq T] in
/-- A thread outside of the chain is one that is not ready. -/
theorem Agree.not_mem (ht : (s.thread t).isReady = false) : t ∉ s.context := by
  rw [h.context.ordered.mem_iff, ht]
  decide

section

variable (hmax : maximumPriority ≤ 255) (ht : (s.thread t).isReady = false) {f : Thread → Thread}
  (hr : (f (s.thread t)).isReady = true) (hx : (f (s.thread t)).Valid maximumPriority)
include hmax ht hr hx

/-- Inserting a thread that becomes ready keeps the agreement. -/
theorem Agree.insertFifo :
    Agree maximumPriority (Simple.insertPriorityFifo (s.setThread t f) t)
      (Priority.enqueue
        (Priority.updateNode (d.setThread t f) t (f (s.thread t)).priority) t) where
  thread := by
    simp [Simple.insertPriorityFifo, Priority.enqueue, Priority.updateNode, State.setThread,
      h.thread]
  cpu := h.cpu
  context := by
    simp only [Priority.enqueue, Priority.updateNode, Function.update_self]
    exact h.context.enqueue hmax (h.not_mem ht) hr hx

/-- Inserting a thread as the first of its priority keeps the agreement. -/
theorem Agree.insertLifo :
    Agree maximumPriority (Simple.insertPriorityLifo (s.setThread t f) t)
      (Priority.enqueueFirst
        (Priority.updateNode (d.setThread t f) t (f (s.thread t)).priority) t) where
  thread := by
    simp [Simple.insertPriorityLifo, Priority.enqueueFirst, Priority.updateNode, State.setThread,
      h.thread]
  cpu := h.cpu
  context := by
    simp only [Priority.enqueueFirst, Priority.updateNode, Function.update_self]
    exact h.context.enqueueFirst hmax (h.not_mem ht) hr hx

end

/-- Blocking a ready thread keeps the agreement. -/
theorem Agree.block (hmax : maximumPriority ≤ 255) (ht : (s.thread t).isReady = true)
    (hs : step Simple.operations s (.block t) = some s') :
    ∃ d', step Priority.operations d (.block t) = some d' ∧ Agree maximumPriority s' d' := by
  have hex := h.extract (f := .withReady false) hmax ht rfl
    (h.context.ordered.valid t)
  simp only [step, Simple.operations, Priority.operations, Simple.block, Priority.block,
    genericBlock] at hs ⊢
  rw [hex.cpu]
  split at hs
  · rename_i hcpu
    rw [if_pos hcpu]
    exact hex.scheduleBody hmax hs
  · rename_i hcpu
    rw [if_neg hcpu]
    cases hs
    exact ⟨_, rfl, hex⟩

/-- Unblocking a thread keeps the agreement. -/
theorem Agree.unblock (hmax : maximumPriority ≤ 255) (ht : (s.thread t).isReady = false)
    (hs : step Simple.operations s (.unblock t) = some s') :
    ∃ d', step Priority.operations d (.unblock t) = some d' ∧ Agree maximumPriority s' d' := by
  have hin := h.insertFifo (f := .withReady true) hmax ht rfl (h.context.ordered.valid t)
  have hthread : (d.setThread t (.withReady true)).thread =
      (s.setThread t (.withReady true)).thread := by
    simp [State.setThread, h.thread]
  have hvalue : ((s.setThread t (.withReady true)).thread t).value = s.priority t := by
    rw [setThread_thread_self]
    exact h.context.ordered.value_eq t
  have hsame : (d.setThread t (.withReady true)).priority =
      (s.setThread t (.withReady true)).priority := by
    funext u
    rw [State.priority, hthread, State.priority]
  have hpriority : (s.setThread t (.withReady true)).priority t = s.priority t := by
    rw [State.priority, setThread_thread_self]
    rfl
  simp only [step, Simple.operations, Priority.operations] at hs ⊢
  rw [Simple.unblock_eq, hpriority, setThread_cpu] at hs
  rw [Priority.unblock_eq (s := d.setThread t (.withReady true)) (h.context.node t), hthread,
    hvalue, hsame, setThread_cpu, h.cpu]
  split at hs
  · rename_i hlt
    cases hs
    rw [if_pos hlt]
    exact ⟨_, rfl, hin.updateHeir t _⟩
  · rename_i hlt
    cases hs
    rw [if_neg hlt]
    exact ⟨_, rfl, hin⟩

end

private theorem setThread_withReady {s : State T Q} (ht : (s.thread t).isReady = true)
    (p : Nat) (b : Bool) :
    (s.setThread t fun th => (th.withPriority p b).withReady false).setThread t (.withReady true) =
      s.setThread t (.withPriority p b) := by
  simp [State.setThread, Thread.withReady, Thread.withPriority, ht]

theorem Agree.setThread (h : Agree maximumPriority s d) {f : Thread → Thread}
    (hr : (f (s.thread t)).isReady = (s.thread t).isReady)
    (hx : (f (s.thread t)).Valid maximumPriority)
    (hp : (s.thread t).isReady = true → (f (s.thread t)).priority = (s.thread t).priority) :
    Agree maximumPriority (s.setThread t f) (d.setThread t f) where
  thread := by simp [State.setThread, h.thread]
  cpu := h.cpu
  context := h.context.setThread hr hx fun ht => hp ((h.context.ordered.mem_iff t).mp ht)

/-- The thread stands where an update to its own priority would place it: first of its
group if it is prepended, last otherwise. -/
def Placed (s : State T (List T)) (t : T) (prependIt : Bool) : Prop :=
  if prependIt then (Simple.group s.thread s.context (s.priority t)).head? = some t
  else (Simple.group s.thread s.context (s.priority t)).getLast? = some t

/-- The first of the chain once the executing thread has gone behind its equals. -/
def yieldSuccessor (s : State T (List T)) : Option T :=
  match s.context with
  | [] => none
  | [first] => some first
  | first :: second :: _ =>
    if first = s.cpu.executing ∧ s.priority second = s.priority first then some second
    else some first

/-- What has to hold before an operation for the two differences of the code not to
show. A yield finds a preemptible heir or chooses the heir again. An update of a ready
thread to the priority it has finds the thread in place, and no other heir is due. -/
def SameChoice (s : State T (List T)) : Op T → Prop
  | .yield => (s.thread s.cpu.executing).isReady = true →
      (s.thread s.cpu.heir).isPreemptible = true ∨ yieldSuccessor s = some s.cpu.heir
  | .updatePriority t p prependIt => (s.thread t).isReady = true → p = s.priority t →
      Placed s t prependIt ∧
        ((s.thread s.cpu.heir).isPreemptible = true → s.context.head? = some s.cpu.heir)
  | _ => True

instance (s : State T (List T)) (t : T) (b : Bool) : Decidable (Placed s t b) := by
  unfold Placed
  infer_instance

instance (s : State T (List T)) (op : Op T) : Decidable (SameChoice s op) :=
  match op with
  | .yield | .updatePriority .. => by unfold SameChoice; infer_instance
  | .unblock _ | .block _ | .setPreemptible .. | .schedule | .dispatch => instDecidableTrue

/-- The simple scheduler's yield chooses the successor. -/
theorem head_insertPriorityFifo_extract (h : Simple.Ordered maximumPriority s.thread s.context)
    (ht : s.cpu.executing ∈ s.context) :
    (Simple.insertPriorityFifo (Simple.extract s s.cpu.executing) s.cpu.executing).context.head? =
      yieldSuccessor s := by
  have hsorted : SortedBy s.priority s.context := h.sorted
  change (insertBefore (fun next => decide (s.priority s.cpu.executing < s.priority next))
    s.cpu.executing (s.context.erase s.cpu.executing)).head? = _
  rw [yieldSuccessor]
  cases hready : s.context with
  | nil => simp [hready] at ht
  | cons first rest =>
    rw [hready] at hsorted ht
    by_cases hfirst : first = s.cpu.executing
    · rw [hfirst, List.erase_cons_head]
      cases rest with
      | nil => rfl
      | cons second rest =>
        have hle := hsorted.head_le (z := second) (by simp)
        rw [hfirst] at hle
        by_cases hlt : s.priority s.cpu.executing < s.priority second
        · simp [insertBefore, hlt, hlt.ne']
        · simp [insertBefore, show s.priority second = s.priority s.cpu.executing by omega]
    · have hle := hsorted.head_le ht
      rw [List.erase_cons_tail (by simpa using hfirst)]
      simp only [insertBefore, decide_eq_true_eq, if_neg (Nat.not_lt.mpr hle), List.head?_cons]
      cases rest <;> simp [hfirst]

private theorem erase_append_of_getLast (hl : l.Nodup) (h : l.getLast? = some t) :
    l.erase t ++ [t] = l := by
  obtain ⟨l', rfl⟩ := List.getLast?_eq_some_iff.mp h
  have hnot : t ∉ l' := by
    intro hmem
    exact (List.nodup_append.mp hl).2.2 t hmem t (by simp) rfl
  simp [List.erase_append_right _ hnot]

private theorem isPreemptible_withPriority (s : State T Q) (t u : T) (p : Nat)
    (b : Bool) :
    ((s.setThread t (.withPriority p b)).thread u).isPreemptible = (s.thread u).isPreemptible := by
  by_cases hut : u = t
  · subst hut
    rw [setThread_thread_self]
    rfl
  · rw [setThread_thread_of_ne _ _ hut]

section

variable (h : Agree maximumPriority s d) (hmax : maximumPriority ≤ 255)
include h hmax

/-- The new place of a ready thread in both schedulers. -/
theorem Agree.reinsert (ht : (s.thread t).isReady = true) (b : Bool)
    (hp : p ≤ maximumPriority) :
    Agree maximumPriority
      (if b then
        Simple.insertPriorityLifo (Simple.extract (s.setThread t (.withPriority p b)) t) t
      else Simple.insertPriorityFifo (Simple.extract (s.setThread t (.withPriority p b)) t) t)
      (if b then
        Priority.enqueueFirst (Priority.updateNode
          (Priority.extractBody (d.setThread t (.withPriority p b)) t) t p) t
      else Priority.enqueue (Priority.updateNode
          (Priority.extractBody (d.setThread t (.withPriority p b)) t) t p) t) := by
  have hex := h.extract (f := fun th => (th.withPriority p b).withReady false) hmax ht rfl ⟨rfl, hp⟩
  have hready : ((Simple.extract
      (s.setThread t fun th => (th.withPriority p b).withReady false) t).thread t).isReady =
      false := by
    simp [Simple.extract, Thread.withReady]
  have hfield : (Simple.extract
      (s.setThread t fun th => (th.withPriority p b).withReady false) t).thread t =
      ((s.thread t).withPriority p b).withReady false := by
    simp [Simple.extract]
  have hd : (d.thread t).isReady = true := by rw [h.thread, ht]
  rw [← setThread_withReady ht, ← setThread_withReady hd]
  cases b with
  | true =>
    have hin := hex.insertLifo (f := .withReady true) hmax hready rfl (by rw [hfield]; exact ⟨rfl, hp⟩)
    rw [hfield] at hin
    exact hin
  | false =>
    have hin := hex.insertFifo (f := .withReady true) hmax hready rfl (by rw [hfield]; exact ⟨rfl, hp⟩)
    rw [hfield] at hin
    exact hin

/-- Yielding keeps the agreement when force does not matter. -/
theorem Agree.yield (hsame : SameChoice s .yield) (hs : step Simple.operations s .yield = some s') :
    ∃ d', step Priority.operations d .yield = some d' ∧ Agree maximumPriority s' d' := by
  simp only [step] at hs ⊢
  rw [h.thread, h.cpu]
  by_cases hr : (s.thread s.cpu.executing).isReady = true
  · rw [if_pos hr] at hs ⊢
    have ht := (h.context.ordered.mem_iff _).mpr hr
    have hrot : Agree maximumPriority
        (Simple.insertPriorityFifo (Simple.extract s s.cpu.executing) s.cpu.executing)
        { d with context := { d.context with
          queues := d.context.queues.rotate s.cpu.executing (d.context.node s.cpu.executing) } } :=
      ⟨h.thread, h.cpu, h.context.rotate ht⟩
    obtain ⟨heir, hheir, rfl⟩ := Option.map_eq_some_iff.mp hs
    have hforce := updateHeir_force
      (Simple.insertPriorityFifo (Simple.extract s s.cpu.executing) s.cpu.executing) (h := heir) (by
        rw [head_insertPriorityFifo_extract h.context.ordered ht] at hheir
        rcases hsame hr with hpre | hsucc
        · exact .inl hpre
        · exact .inr (Option.some.inj (hsucc.symm.trans hheir)))
    have hbody : Simple.scheduleBody
        (Simple.insertPriorityFifo (Simple.extract s s.cpu.executing) s.cpu.executing) true =
        some (Uniprocessor.updateHeir (Simple.insertPriorityFifo
          (Simple.extract s s.cpu.executing) s.cpu.executing) heir false) := by
      rw [Simple.scheduleBody, hheir, Option.map_some, hforce]
    exact hrot.scheduleBody hmax hbody
  · rw [if_neg hr] at hs ⊢
    cases hs
    exact ⟨d, rfl, h⟩

/-- An update to the priority a thread has moves nothing when the thread is in place. -/
private theorem Agree.reinsert_placed (ht : (s.thread t).isReady = true)
    (hplaced : Placed s t b) :
    Agree maximumPriority
      (if b then Simple.insertPriorityLifo
        (Simple.extract (s.setThread t (.withPriority (s.priority t) b)) t) t
      else Simple.insertPriorityFifo
        (Simple.extract (s.setThread t (.withPriority (s.priority t) b)) t) t)
      (d.setThread t (.withPriority (s.priority t) b)) := by
  have hin := h.reinsert hmax ht b (h.context.ordered.le_maximum t)
  have hset := h.setThread (t := t) (f := .withPriority (s.priority t) b) rfl
    ⟨rfl, h.context.ordered.le_maximum t⟩ fun _ => rfl
  have hnodup : (Simple.group s.thread s.context (s.priority t)).Nodup :=
    List.Pairwise.filter _ h.context.ordered.nodup
  have hcontext : ∀ {ready : List T}, Simple.Ordered maximumPriority
      (s.setThread t (.withPriority (s.priority t) b)).thread ready →
      Simple.group (s.setThread t (.withPriority (s.priority t) b)).thread ready =
        Simple.group s.thread s.context →
      Corresponds maximumPriority (s.setThread t (.withPriority (s.priority t) b)).thread ready
        d.context := by
    intro ready hord hgroup
    refine ⟨hord, ?_, h.context.node, ?_⟩
    · rw [hgroup]
      exact h.context.holds
    · intro u hu
      refine hset.context.current u ?_
      exact (hset.context.ordered.mem_iff u).mpr ((hord.mem_iff u).mp hu)
  cases b with
  | true =>
    refine ⟨hset.thread, h.cpu, hcontext hin.context.ordered ?_⟩
    refine (Simple.group_reinsertLifo (t := t) (x := (s.thread t).withPriority (s.priority t) true)
      h.context.ordered rfl).trans ?_
    rw [Function.update_eq_self_iff]
    obtain ⟨l, hl⟩ := List.head?_eq_some_iff.mp hplaced
    change Simple.group s.thread s.context (s.thread t).priority = t :: l at hl
    rw [hl, List.erase_cons_head]
  | false =>
    refine ⟨hset.thread, h.cpu, hcontext hin.context.ordered ?_⟩
    refine (Simple.group_reinsertFifo (t := t) (x := (s.thread t).withPriority (s.priority t) false)
      h.context.ordered rfl).trans ?_
    rw [Function.update_eq_self_iff]
    exact erase_append_of_getLast hnodup hplaced

/-- A priority update keeps the agreement. -/
theorem Agree.updatePriority (hp : p ≤ maximumPriority)
    (hsame : SameChoice s (.updatePriority t p b))
    (hs : step Simple.operations s (.updatePriority t p b) = some s') :
    ∃ d', step Priority.operations d (.updatePriority t p b) = some d' ∧
      Agree maximumPriority s' d' := by
  simp only [step, Simple.operations, Priority.operations, Simple.updatePriority,
    Priority.updatePriority, setThread_thread_self, setThread_context] at hs ⊢
  have hready : ((d.thread t).withPriority p b).isReady = (s.thread t).isReady := by
    rw [h.thread]
    rfl
  have hvalue : ((d.thread t).withPriority p b).value = p := rfl
  have hprepend : ((d.thread t).withPriority p b).prependIt = b := rfl
  have hready' : ((s.thread t).withPriority p b).isReady = (s.thread t).isReady := rfl
  have hprepend' : ((s.thread t).withPriority p b).prependIt = b := rfl
  rw [hready', hprepend'] at hs
  rw [hready, hvalue, hprepend]
  by_cases ht : (s.thread t).isReady = true
  · rw [if_pos ht] at hs ⊢
    have hcur : (d.context.node t).currentPriority = s.priority t :=
      h.context.current t ((h.context.ordered.mem_iff t).mpr ht)
    rw [hcur]
    by_cases heq : p = s.priority t
    · rw [if_pos heq]
      obtain ⟨hplaced, hheir⟩ := hsame ht heq
      subst heq
      have hag := h.reinsert_placed hmax ht hplaced
      refine ⟨_, rfl, ?_⟩
      obtain ⟨heir, hhead, rfl⟩ := Option.map_eq_some_iff.mp hs
      rw [updateHeir_false_eq_self]
      · exact hag
      · intro hpre
        rw [← hag.thread, ← hag.cpu, setThread_cpu, h.cpu, isPreemptible_withPriority,
          h.thread] at hpre
        have hfirst : s.context.head? = some heir :=
          (h.context.first_eq hmax).symm.trans ((hag.context.first_eq hmax).trans hhead)
        rw [← hag.cpu, setThread_cpu, h.cpu]
        exact Option.some.inj (hfirst.symm.trans (hheir hpre))
    · rw [if_neg heq]
      exact (h.reinsert hmax ht b hp).scheduleBody hmax hs
  · rw [if_neg ht] at hs ⊢
    cases hs
    exact ⟨_, rfl, h.setThread rfl ⟨rfl, hp⟩ fun hr => absurd hr ht⟩

/-- Every operation keeps the agreement where the differences do not show. -/
theorem Agree.step {idle : T} (hlegal : Legal maximumPriority idle s op) (hsame : SameChoice s op)
    (hs : step Simple.operations s op = some s') :
    ∃ d', Uniprocessor.step Priority.operations d op = some d' ∧ Agree maximumPriority s' d' := by
  cases op with
  | unblock t => exact h.unblock hmax hlegal hs
  | block t => exact h.block hmax hlegal.1 hs
  | yield => exact h.yield hmax hsame hs
  | updatePriority t p b => exact h.updatePriority hmax hlegal hsame hs
  | setPreemptible t b =>
    cases hs
    exact ⟨_, rfl, h.setThread rfl (h.context.ordered.valid t) fun _ => rfl⟩
  | schedule => exact h.scheduleBody hmax hs
  | dispatch =>
    cases hs
    refine ⟨_, rfl, h.thread, ?_, h.context⟩
    rw [h.cpu]

end

end Steps

section Runs

variable {maximumPriority : Nat} {s s' : State T (List T)} {idle t : T}

private theorem scheduleBody_isSome (ht : t ∈ s.context) (force : Bool) :
    (Simple.scheduleBody s force).isSome = true := by
  cases hready : s.context with
  | nil => simp [hready] at ht
  | cons first rest => simp [Simple.scheduleBody, hready]

/-- Every legal operation succeeds while the idle thread is ready. -/
theorem step_isSome (h : Simple.Ordered maximumPriority s.thread s.context)
    (hidle : (s.thread idle).isReady = true)
    (hlegal : Legal maximumPriority idle s op) : (step Simple.operations s op).isSome = true := by
  have hmem := (h.mem_iff idle).mpr hidle
  cases op with
  | unblock t =>
    simp only [step, Simple.operations, Simple.unblock_eq]
    split <;> rfl
  | block t =>
    simp only [step, Simple.operations, Simple.block, genericBlock]
    split
    · refine scheduleBody_isSome (t := idle) ?_ true
      exact (List.mem_erase_of_ne hlegal.2.symm).mpr hmem
    · rfl
  | yield =>
    simp only [step, Simple.operations, Simple.yield]
    split
    · exact scheduleBody_isSome (mem_insertBefore.mpr (.inl rfl)) false
    · rfl
  | updatePriority t p b =>
    simp only [step, Simple.operations, Simple.updatePriority]
    split
    · refine scheduleBody_isSome (t := t) ?_ false
      split <;> exact mem_insertBefore.mpr (.inl rfl)
    · rfl
  | setPreemptible t b => rfl
  | schedule => exact scheduleBody_isSome hmem false
  | dispatch => rfl

private theorem scheduleBody_thread (hs : Simple.scheduleBody s force = some s') :
    s'.thread = s.thread := by
  obtain ⟨heir, -, rfl⟩ := Option.map_eq_some_iff.mp hs
  exact updateHeir_thread ..

/-- A legal operation never takes the idle thread off the ready threads. -/
theorem step_idle_isReady (hidle : (s.thread idle).isReady = true)
    (hlegal : Legal maximumPriority idle s op) (hs : step Simple.operations s op = some s') :
    (s'.thread idle).isReady = true := by
  have hkeep : ∀ (t : T) (f : Thread → Thread), (∀ th : Thread, th.isReady = true →
      (f th).isReady = true) → ((s.setThread t f).thread idle).isReady = true := by
    intro t f hf
    by_cases hit : idle = t
    · subst hit
      rw [setThread_thread_self]
      exact hf _ hidle
    · rw [setThread_thread_of_ne _ _ hit]
      exact hidle
  cases op with
  | unblock t =>
    simp only [step, Simple.operations, Simple.unblock_eq] at hs
    split at hs <;> cases hs
    · rw [updateHeir_thread]
      exact hkeep t _ fun _ _ => rfl
    · exact hkeep t _ fun _ _ => rfl
  | block t =>
    have hblock : ((s.setThread t (.withReady false)).thread idle).isReady = true := by
      rw [setThread_thread_of_ne _ _ hlegal.2.symm]
      exact hidle
    simp only [step, Simple.operations, Simple.block, genericBlock] at hs
    split at hs
    · rw [scheduleBody_thread hs]
      exact hblock
    · cases hs
      exact hblock
  | yield =>
    simp only [step, Simple.operations, Simple.yield] at hs
    split at hs
    · rw [scheduleBody_thread hs]
      exact hidle
    · cases hs
      exact hidle
  | updatePriority t p b =>
    simp only [step, Simple.operations, Simple.updatePriority] at hs
    split at hs
    · rw [scheduleBody_thread hs]
      split <;> exact hkeep t _ fun _ hr => hr
    · cases hs
      exact hkeep t _ fun _ hr => hr
  | setPreemptible t b =>
    cases hs
    exact hkeep t _ fun _ hr => hr
  | schedule =>
    rw [scheduleBody_thread hs]
    exact hidle
  | dispatch =>
    cases hs
    exact hidle

omit [DecidableEq T] in
/-- The state before the idle thread is created: no thread is ready. -/
theorem agree_initialized {thread : T → Thread} (hvalid : ∀ t, (thread t).Valid maximumPriority)
    (hblocked : ∀ t, (thread t).isReady = false) (cpu : PerCpu T) :
    Agree maximumPriority ⟨thread, cpu, Simple.initialized⟩
      ⟨thread, cpu, Priority.initialized thread⟩ where
  thread := rfl
  cpu := rfl
  context :=
    { ordered :=
        { nodup := List.nodup_nil
          mem_iff := by simp [Simple.initialized, hblocked]
          sorted := sortedBy_nil
          value_eq := fun t => (hvalid t).1
          le_maximum := fun t => (hvalid t).2 }
      holds := ReadyQueues.holds_initialized
      node := fun _ => rfl
      current := fun _ h => absurd h List.not_mem_nil }

/-- From the creation of the idle thread on, both schedulers have the same heir and
the same dispatch indication after every run of operations for which the differences do
not show. The simple scheduler never gets stuck on a legal operation. -/
theorem fixed_priority_schedulers_agree (maximumPriority : Nat) (thread : T → Thread) (idle : T)
    (hmax : maximumPriority ≤ 255) (hvalid : ∀ t, (thread t).Valid maximumPriority)
    (hblocked : ∀ t, (thread t).isReady = false) :
    ∃ s₀ d₀, createIdle Simple.operations thread Simple.initialized idle = some s₀ ∧
      createIdle Priority.operations thread (Priority.initialized thread) idle = some d₀ ∧
      ∀ actions s, Run (step Simple.operations)
          (fun s op => Legal maximumPriority idle s op ∧ SameChoice s op) s₀ actions s →
        (∃ d, Run (step Priority.operations) (Legal maximumPriority idle) d₀ actions d ∧
          d.cpu.heir = s.cpu.heir ∧ d.cpu.dispatchNecessary = s.cpu.dispatchNecessary) ∧
        ∀ op, Legal maximumPriority idle s op → (step Simple.operations s op).isSome = true := by
  have hinit := agree_initialized hvalid hblocked ⟨idle, idle, false⟩
  obtain ⟨s₀, hs₀⟩ : ∃ s₀, createIdle Simple.operations thread Simple.initialized idle =
      some s₀ := by
    simp only [createIdle, step, Simple.operations, Simple.unblock_eq]
    split <;> exact ⟨_, rfl⟩
  obtain ⟨d₀, hd₀, hagree⟩ := hinit.unblock hmax (hblocked idle) hs₀
  have hready : (s₀.thread idle).isReady = true := by
    simp only [createIdle, step, Simple.operations, Simple.unblock_eq] at hs₀
    split at hs₀ <;> cases hs₀ <;> simp [Simple.insertPriorityFifo, Thread.withReady]
  refine ⟨s₀, d₀, hs₀, hd₀, ?_⟩
  intro actions s hrun
  obtain ⟨d, hrun', hd, hidle⟩ := hrun.simulate
    (fun s d => Agree maximumPriority s d ∧ (s.thread idle).isReady = true) ⟨hagree, hready⟩ (by
      rintro s d op s' ⟨h, hidle⟩ ⟨hlegal, hsame⟩ hs
      obtain ⟨d', hd', h'⟩ := h.step hmax hlegal hsame hs
      have hiff : Legal maximumPriority idle d op ↔ Legal maximumPriority idle s op := by
        cases op <;> simp [Legal, h.thread]
      exact ⟨hiff.mpr hlegal, d', hd', h', step_idle_isReady hidle hlegal hs⟩)
  refine ⟨⟨d, hrun', ?_, ?_⟩, ?_⟩
  · rw [hd.cpu]
  · rw [hd.cpu]
  · intro op hlegal
    exact step_isSome hd.context.ordered hidle hlegal

end Runs

section Instances

/-- An idle thread and two threads of one priority, all of them blocked. -/
def threeThreads (t : Fin 3) : Thread :=
  if t = 0 then ⟨false, true, 255, 255, false⟩ else ⟨false, true, 1, 1, false⟩

/-- A thread that is not preemptible yields to an equal. -/
def yieldNotPreemptible : List (Op (Fin 3)) :=
  [.unblock 1, .dispatch, .setPreemptible 1 false, .unblock 2, .yield]

/-- A preemptible thread yields to an equal. -/
def yieldPreemptible : List (Op (Fin 3)) := [.unblock 1, .dispatch, .unblock 2, .yield]

theorem fixed_priority_schedulers_agree_threeThreads :
    ∃ s₀ d₀ s d, createIdle Simple.operations threeThreads Simple.initialized 0 = some s₀ ∧
      createIdle Priority.operations threeThreads (Priority.initialized threeThreads) 0 =
        some d₀ ∧
      Run (step Simple.operations) (fun s op => Legal 255 0 s op ∧ SameChoice s op) s₀
        yieldPreemptible s ∧
      Run (step Priority.operations) (Legal 255 0) d₀ yieldPreemptible d ∧
      d.cpu.heir = s.cpu.heir ∧ s.cpu.heir = 2 := by
  obtain ⟨s₀, d₀, hs₀, hd₀, hagree⟩ :=
    fixed_priority_schedulers_agree 255 threeThreads 0 le_rfl (by decide) (by decide)
  cases hs₀
  obtain ⟨d, hd, hheir, -⟩ := (hagree yieldPreemptible _ (.of_exec rfl)).1
  exact ⟨_, d₀, _, d, rfl, hd₀, .of_exec rfl, hd, hheir, rfl⟩

/-- The two schedulers disagree: the simple one keeps the yielding thread as heir and
the deterministic one dispatches its equal. -/
theorem fixed_priority_schedulers_disagree :
    ∃ s₀ d₀ s d, createIdle Simple.operations threeThreads Simple.initialized 0 = some s₀ ∧
      createIdle Priority.operations threeThreads (Priority.initialized threeThreads) 0 =
        some d₀ ∧
      Run (step Simple.operations) (Legal 255 0) s₀ yieldNotPreemptible s ∧
      Run (step Priority.operations) (Legal 255 0) d₀ yieldNotPreemptible d ∧
      s.cpu.heir = 1 ∧ s.cpu.dispatchNecessary = false ∧
      d.cpu.heir = 2 ∧ d.cpu.dispatchNecessary = true :=
  ⟨_, _, _, _, rfl, rfl, .of_exec rfl, .of_exec rfl, rfl, rfl, rfl, rfl⟩

end Instances

end Rtems.Scheduler.Uniprocessor
