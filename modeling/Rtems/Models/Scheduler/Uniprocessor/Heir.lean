import Rtems.Models.Scheduler.Uniprocessor.Agreement

/-!
# The heir of the deterministic priority scheduler

The bit map, the ready chains and the cached nodes always describe the ready threads,
and a preemptible heir is the first thread of the highest ready priority. The unblock
operation compares the thread with the heir only and forces the dispatch of a pseudo
interrupt thread. This is right as long as no other thread of this priority waits
behind a heir that is not preemptible.
-/

namespace Rtems.Scheduler.Uniprocessor

variable {T : Type*} [DecidableEq T] {maximumPriority : Nat} {idle : T}
  {d d' : State T (Priority.Context T)} {ready : List T} {t : T}

/-- The ready threads in scheduling order, with the heir among them; a preemptible heir
is the first one. -/
structure Chosen (maximumPriority : Nat) (idle : T) (d : State T (Priority.Context T))
    (ready : List T) : Prop where
  context : Corresponds maximumPriority d.thread ready d.context
  idle_mem : idle ∈ ready
  heir_mem : d.cpu.heir ∈ ready
  first : (d.thread d.cpu.heir).isPreemptible = true → ready.head? = some d.cpu.heir

omit [DecidableEq T] in
/-- The list of the ready threads as a state of the simple scheduler. -/
theorem Corresponds.agree (h : Corresponds maximumPriority d.thread ready d.context) :
    Agree maximumPriority ⟨d.thread, d.cpu, ready⟩ d := ⟨rfl, rfl, h⟩

variable {Q : Type*}

theorem heir_updateHeir_true (s : State T Q) (newHeir : T) :
    (updateHeir s newHeir true).cpu.heir = newHeir := by
  by_cases hne : s.cpu.heir = newHeir
  · simp [updateHeir, hne]
  · simp [updateHeir, hne]

theorem heir_updateHeir_false (s : State T Q) (newHeir : T) :
    (updateHeir s newHeir false).cpu.heir =
      if (s.thread s.cpu.heir).isPreemptible = true then newHeir else s.cpu.heir := by
  by_cases hne : s.cpu.heir = newHeir
  · simp [updateHeir, hne]
  · by_cases hpre : (s.thread s.cpu.heir).isPreemptible = true <;> simp [updateHeir, hne, hpre]

section

variable (h : Corresponds maximumPriority d.thread ready d.context)
  (hmax : maximumPriority ≤ 255) (hidle : idle ∈ ready)
include h hmax hidle

theorem scheduleBody_eq (force : Bool) :
    ∃ first ∈ ready, ready.head? = some first ∧
      Priority.scheduleBody d force = some (updateHeir d first force) := by
  obtain ⟨first, rest, rfl⟩ := List.exists_cons_of_ne_nil (List.ne_nil_of_mem hidle)
  refine ⟨first, List.mem_cons_self, rfl, ?_⟩
  rw [Priority.scheduleBody, h.first_eq hmax]
  rfl

theorem chosen_scheduleBody_true :
    ∃ d', Priority.scheduleBody d true = some d' ∧ Chosen maximumPriority idle d' ready := by
  obtain ⟨first, hmem, hhead, hres⟩ := scheduleBody_eq h hmax hidle true
  refine ⟨_, hres, ?_, hidle, ?_, ?_⟩
  · simpa using h
  · rwa [heir_updateHeir_true]
  · rw [heir_updateHeir_true]
    exact fun _ => hhead

/-- A choice without force. -/
theorem chosen_scheduleBody_false (hheir : d.cpu.heir ∈ ready) :
    ∃ d', Priority.scheduleBody d false = some d' ∧ Chosen maximumPriority idle d' ready := by
  obtain ⟨first, hmem, hhead, hres⟩ := scheduleBody_eq h hmax hidle false
  refine ⟨_, hres, by simpa using h, hidle, ?_, ?_⟩
  · rw [heir_updateHeir_false]
    split <;> assumption
  · rw [heir_updateHeir_false, updateHeir_thread]
    split
    · exact fun _ => hhead
    · next hpre => exact fun hpre' => absurd hpre' hpre

end

/-- No thread of the pseudo interrupt priority waits behind a heir that is not
preemptible when a preemptible one is unblocked. -/
def NoneBehind (d : State T (Priority.Context T)) (t : T) : Prop :=
  (d.thread t).value = priorityPseudoIsr → (d.thread t).isPreemptible = true →
    (d.thread d.cpu.heir).isPreemptible = false → priorityPseudoIsr < d.priority d.cpu.heir →
      d.context.queues.ready priorityPseudoIsr = []

/-- Becoming ready or blocked changes neither priority nor preemptibility. -/
theorem withReady_isPreemptible (s : State T Q) (t u : T) (b : Bool) :
    ((s.setThread t (.withReady b)).thread u).isPreemptible = (s.thread u).isPreemptible ∧
      (s.setThread t (.withReady b)).priority u = s.priority u := by
  by_cases hu : u = t
  · subst hu
    rw [State.priority, setThread_thread_self]
    exact ⟨rfl, rfl⟩
  · rw [State.priority, setThread_thread_of_ne _ _ hu]
    exact ⟨rfl, rfl⟩

omit [DecidableEq T] in
/-- A new heir that is better than a preemptible one, or a pseudo interrupt thread with
none behind, is better than every ready thread. -/
theorem Chosen.better (h : Chosen maximumPriority idle d ready)
    (hlt : d.priority t < d.priority d.cpu.heir) (hnone : NoneBehind d t)
    (htpre : (d.thread t).isPreemptible = true)
    (hadopt : (d.thread d.cpu.heir).isPreemptible = true ∨ d.priority t = priorityPseudoIsr)
    {u : T} (hu : u ∈ ready) : d.priority t < d.priority u := by
  by_cases hpre : (d.thread d.cpu.heir).isPreemptible = true
  · obtain ⟨rest, hready⟩ := List.head?_eq_some_iff.mp (h.first hpre)
    have hle := SortedBy.head_le (hready ▸ h.context.ordered.sorted) (hready ▸ hu)
    exact lt_of_lt_of_le hlt hle
  · have hzero : d.priority t = priorityPseudoIsr := hadopt.resolve_left hpre
    have hempty := hnone ((h.context.ordered.value_eq t).trans hzero) htpre (by simpa using hpre)
      (hzero ▸ hlt)
    rw [hzero]
    refine Nat.pos_of_ne_zero fun hu0 => ?_
    have hmem : u ∈ d.context.queues.ready priorityPseudoIsr := by
      rw [h.context.holds.chain]
      exact List.mem_filter.mpr ⟨hu, decide_eq_true hu0⟩
    simp [hempty] at hmem

section

variable (h : Chosen maximumPriority idle d ready) (hmax : maximumPriority ≤ 255)
include h hmax

/-- Unblocking a thread keeps the choice. -/
theorem Chosen.unblock (ht : (d.thread t).isReady = false) (hnone : NoneBehind d t) :
    ∃ d' ready', step Priority.operations d (.unblock t) = some d' ∧
      Chosen maximumPriority idle d' ready' := by
  have hin := h.context.agree.insertFifo (f := .withReady true) hmax ht rfl
    (h.context.ordered.valid t)
  have hvalue : ((d.setThread t (.withReady true)).thread t).value = d.priority t := by
    rw [setThread_thread_self]
    exact h.context.ordered.value_eq t
  obtain ⟨e, he⟩ := @exists_eq _
    (Priority.enqueue (Priority.updateNode (d.setThread t (.withReady true)) t (d.priority t)) t)
  obtain ⟨ready', hready'⟩ := @exists_eq _
    (insertBefore (fun next => decide (d.priority t < d.priority next)) t ready)
  have hctx : Corresponds maximumPriority e.thread ready' e.context := by
    have hsame : ready' = (Simple.insertPriorityFifo
        (State.setThread ⟨d.thread, d.cpu, ready⟩ t (.withReady true)) t).context := by
      rw [hready']
      refine insertBefore_congr fun u _ => ?_
      rw [← (withReady_isPreemptible d t t true).2, ← (withReady_isPreemptible d t u true).2]
      rfl
    have hcontext := hin.context
    rw [he, hsame]
    exact hcontext
  have hcpu : e.cpu = d.cpu := by rw [he]; rfl
  have hpre (u : T) : (e.thread u).isPreemptible = (d.thread u).isPreemptible := by
    rw [he]
    exact (withReady_isPreemptible d t u true).1
  have hmem {u : T} (hu : u ∈ ready) : u ∈ ready' := by
    rw [hready', mem_insertBefore]
    exact .inr hu
  have hself : t ∈ ready' := by
    rw [hready', mem_insertBefore]
    exact .inl rfl
  have hbetter (htpre : (d.thread t).isPreemptible = true)
      (hlt : d.priority t < d.priority d.cpu.heir)
      (hadopt : (d.thread d.cpu.heir).isPreemptible = true ∨ d.priority t = priorityPseudoIsr) :
      ready'.head? = some t := by
    rw [hready', insertBefore_eq_cons fun u hu => decide_eq_true
      (h.better hlt hnone htpre hadopt hu)]
    rfl
  have hres : step Priority.operations d (.unblock t) =
      if d.priority t < d.priority d.cpu.heir then
        some (updateHeir e t (decide (d.priority t = priorityPseudoIsr)))
      else some e := by
    simp only [step, Priority.operations]
    rw [Priority.unblock_eq (s := d.setThread t (.withReady true)) (h.context.node t), hvalue,
      (withReady_isPreemptible d t _ true).2, he]
    rfl
  rw [hres]
  by_cases hlt : d.priority t < d.priority d.cpu.heir
  · rw [if_pos hlt]
    refine ⟨_, ready', rfl, by simpa using hctx, hmem h.idle_mem, ?_, ?_⟩
    · by_cases hzero : d.priority t = priorityPseudoIsr
      · simpa [hzero, heir_updateHeir_true] using hself
      · rw [decide_eq_false hzero, heir_updateHeir_false, hcpu]
        split
        · exact hself
        · exact hmem h.heir_mem
    · by_cases hzero : d.priority t = priorityPseudoIsr
      · rw [decide_eq_true hzero, heir_updateHeir_true, updateHeir_thread, hpre]
        exact fun htpre => hbetter htpre hlt (.inr hzero)
      · rw [decide_eq_false hzero, heir_updateHeir_false, updateHeir_thread, hcpu, hpre]
        split
        · next hheir => exact fun htpre => hbetter htpre hlt (.inl (hpre _ ▸ hheir))
        · next hheir => exact fun hheir' => absurd (hpre _ ▸ hheir') hheir
  · rw [if_neg hlt]
    refine ⟨e, ready', rfl, hctx, hmem h.idle_mem, hcpu ▸ hmem h.heir_mem, ?_⟩
    rw [hcpu, hpre, hready']
    intro hheir
    obtain ⟨rest, hrest⟩ := List.head?_eq_some_iff.mp (h.first hheir)
    simp [hrest, insertBefore, hlt]

/-- Blocking a thread other than the idle one keeps the choice. -/
theorem Chosen.block (ht : (d.thread t).isReady = true) (hidle : t ≠ idle) :
    ∃ d' ready', step Priority.operations d (.block t) = some d' ∧
      Chosen maximumPriority idle d' ready' := by
  have hex := h.context.agree.extract (f := .withReady false) hmax ht rfl
    (h.context.ordered.valid t)
  have hmem : idle ∈ ready.erase t := (List.mem_erase_of_ne hidle.symm).mpr h.idle_mem
  obtain ⟨e, he⟩ := @exists_eq _ (Priority.extractBody (d.setThread t (.withReady false)) t)
  have hctx : Corresponds maximumPriority e.thread (ready.erase t) e.context := by
    have hcontext := hex.context
    rw [he]
    exact hcontext
  have hcpu : e.cpu = d.cpu := by rw [he]; rfl
  have hres : step Priority.operations d (.block t) =
      if d.cpu.executing = t ∨ d.cpu.heir = t then Priority.scheduleBody e true else some e := by
    simp only [step, Priority.operations, Priority.block, genericBlock, ← he, hcpu]
  rw [hres]
  by_cases hchoose : d.cpu.executing = t ∨ d.cpu.heir = t
  · rw [if_pos hchoose]
    obtain ⟨d', hd', hchosen⟩ := chosen_scheduleBody_true hctx hmax hmem
    exact ⟨d', _, hd', hchosen⟩
  · rw [if_neg hchoose]
    have hheir : d.cpu.heir ≠ t := fun he => hchoose (.inr he)
    refine ⟨e, _, rfl, hctx, hmem, ?_, ?_⟩
    · rw [hcpu]
      exact (List.mem_erase_of_ne hheir).mpr h.heir_mem
    · rw [hcpu, he]
      intro hpre
      obtain ⟨rest, hrest⟩ :=
        List.head?_eq_some_iff.mp (h.first ((withReady_isPreemptible d t _ false).1 ▸ hpre))
      rw [hrest, List.erase_cons_tail (by simpa using hheir)]
      rfl

/-- A yield keeps the choice. -/
theorem Chosen.yield :
    ∃ d' ready', step Priority.operations d .yield = some d' ∧
      Chosen maximumPriority idle d' ready' := by
  simp only [step, Priority.operations, Priority.yield]
  by_cases hr : (d.thread d.cpu.executing).isReady = true
  · rw [if_pos hr]
    have ht := (h.context.ordered.mem_iff _).mpr hr
    have hrotate := h.context.rotate ht
    have hidle : idle ∈ insertBefore (fun next => decide
        ((d.thread d.cpu.executing).priority < (d.thread next).priority)) d.cpu.executing
        (ready.erase d.cpu.executing) := by
      rw [mem_insertBefore]
      by_cases hi : idle = d.cpu.executing
      · exact .inl hi
      · exact .inr ((List.mem_erase_of_ne hi).mpr h.idle_mem)
    obtain ⟨d', hd', hchosen⟩ := chosen_scheduleBody_true (d := { d with
      context := { d.context with
        queues := d.context.queues.rotate d.cpu.executing (d.context.node d.cpu.executing) } })
      hrotate hmax hidle
    exact ⟨d', _, hd', hchosen⟩
  · rw [if_neg hr]
    exact ⟨d, ready, rfl, h⟩

end

/-- A new priority changes neither readiness nor preemptibility. -/
theorem withPriority_fields (s : State T Q) (t u : T) (p : Nat) (b : Bool) :
    ((s.setThread t (.withPriority p b)).thread u).isPreemptible = (s.thread u).isPreemptible ∧
      ((s.setThread t (.withPriority p b)).thread u).isReady = (s.thread u).isReady := by
  by_cases hu : u = t
  · subst hu
    rw [setThread_thread_self]
    exact ⟨rfl, rfl⟩
  · rw [setThread_thread_of_ne _ _ hu]
    exact ⟨rfl, rfl⟩

/-- The operations under which a preemptible heir is the right one: the threads keep
their preemptibility, and no unblock overtakes a pseudo interrupt thread. -/
def Safe (maximumPriority : Nat) (idle : T) (d : State T (Priority.Context T)) (op : Op T) : Prop :=
  Legal maximumPriority idle d op ∧
    match op with
    | .unblock t => NoneBehind d t
    | .setPreemptible _ _ => False
    | _ => True

/-- The creation of the idle thread chooses it. -/
theorem exists_createIdle {thread : T → Thread} (hmax : maximumPriority ≤ 255)
    (hvalid : ∀ t, (thread t).Valid maximumPriority) (hblocked : ∀ t, (thread t).isReady = false)
    (idle : T) :
    ∃ d₀ ready, createIdle Priority.operations thread (Priority.initialized thread) idle =
      some d₀ ∧ Chosen maximumPriority idle d₀ ready := by
  have hinit := agree_initialized hvalid hblocked ⟨idle, idle, false⟩
  obtain ⟨s₀, hs₀⟩ : ∃ s₀, createIdle Simple.operations thread Simple.initialized idle =
      some s₀ := by
    simp only [createIdle, Uniprocessor.step, Simple.operations, Simple.unblock_eq]
    split <;> exact ⟨_, rfl⟩
  obtain ⟨d₀, hd₀, hagree⟩ := hinit.unblock hmax (hblocked idle) hs₀
  have hs₀' : s₀.cpu.heir = idle ∧ s₀.context = [idle] := by
    simp only [createIdle, Uniprocessor.step, Simple.operations, Simple.unblock_eq,
      setThread_cpu, lt_self_iff_false, if_false, Option.some_inj] at hs₀
    rw [← hs₀]
    exact ⟨rfl, rfl⟩
  have hcontext := hagree.context
  rw [← hagree.thread, hs₀'.2] at hcontext
  refine ⟨d₀, [idle], hd₀, hcontext, List.mem_singleton_self idle, ?_, fun _ => ?_⟩
  · rw [hagree.cpu, hs₀'.1]
    exact List.mem_singleton_self idle
  · rw [hagree.cpu, hs₀'.1]
    rfl

/-- The bit map, the chains and the nodes describe the ready threads, and a preemptible
heir is the first thread of the least priority with a set bit. -/
structure PriorityExact (d : State T (Priority.Context T)) : Prop where
  minor_iff : ∀ p < 256,
    d.context.queues.bitMap.isSet p = true ↔ d.context.queues.ready p ≠ []
  major_iff : ∀ j < 16, d.context.queues.bitMap.majorBitMap.getMsbD j = true ↔
    d.context.queues.bitMap.bitMap j ≠ 0
  count_eq : ∀ t p, (d.context.queues.ready p).count t =
    if (d.thread t).isReady = true ∧ p = (d.context.node t).currentPriority then 1 else 0
  heir : (d.thread d.cpu.heir).isPreemptible = true →
    ∃ p, IsLeast {p | p < 256 ∧ d.context.queues.bitMap.isSet p = true} p ∧
      (d.context.queues.ready p).head? = some d.cpu.heir

section

variable (h : Chosen maximumPriority idle d ready) (hmax : maximumPriority ≤ 255)
include h hmax

/-- A priority update keeps the choice. -/
theorem Chosen.updatePriority {p : Nat} {b : Bool} (hp : p ≤ maximumPriority) :
    ∃ d' ready', step Priority.operations d (.updatePriority t p b) = some d' ∧
      Chosen maximumPriority idle d' ready' := by
  have hset (hkeep : t ∈ ready → p = (d.thread t).priority) :
      Chosen maximumPriority idle (d.setThread t (.withPriority p b)) ready :=
    ⟨h.context.setThread (x := (d.thread t).withPriority p b) rfl ⟨rfl, hp⟩ hkeep, h.idle_mem,
      h.heir_mem, fun hpre => h.first ((withPriority_fields d t _ p b).1 ▸ hpre)⟩
  simp only [step, Priority.operations, Priority.updatePriority]
  have hready : ((d.setThread t (.withPriority p b)).thread t).isReady = (d.thread t).isReady :=
    (withPriority_fields d t t p b).2
  have hvalue : ((d.setThread t (.withPriority p b)).thread t).value = p := by
    rw [setThread_thread_self]
    rfl
  have hprepend : ((d.setThread t (.withPriority p b)).thread t).prependIt = b := by
    rw [setThread_thread_self]
    rfl
  rw [hready, hvalue, hprepend, setThread_context]
  by_cases ht : (d.thread t).isReady = true
  · rw [if_pos ht]
    by_cases heq : p = (d.context.node t).currentPriority
    · rw [if_pos heq]
      exact ⟨_, ready, rfl, hset fun hmem => heq.trans (h.context.current t hmem)⟩
    · rw [if_neg heq]
      have hin := h.context.agree.reinsert hmax ht b hp
      obtain ⟨ready', hcontext, hkeep⟩ : ∃ ready',
          (if b then Simple.insertPriorityLifo (Simple.extract (State.setThread
              ⟨d.thread, d.cpu, ready⟩ t (.withPriority p b)) t) t
            else Simple.insertPriorityFifo (Simple.extract (State.setThread
              ⟨d.thread, d.cpu, ready⟩ t (.withPriority p b)) t) t).context = ready' ∧
          ∀ u ∈ ready, u ∈ ready' := by
        refine ⟨_, rfl, fun u hu => ?_⟩
        have hu' : u = t ∨ u ∈ ready.erase t := by
          by_cases hut : u = t
          · exact .inl hut
          · exact .inr ((List.mem_erase_of_ne hut).mpr hu)
        cases b <;> exact mem_insertBefore.mpr hu'
      have hctx := hin.context
      rw [hcontext, ← hin.thread] at hctx
      have hcpu := hin.cpu
      obtain ⟨d', hd', hchosen⟩ := chosen_scheduleBody_false hctx hmax (hkeep _ h.idle_mem) (by
        cases b <;> exact hkeep _ h.heir_mem)
      exact ⟨d', ready', hd', hchosen⟩
  · rw [if_neg ht]
    exact ⟨_, ready, rfl, hset fun hmem => absurd ((h.context.ordered.mem_iff t).mp hmem) ht⟩

/-- Every safe operation returns and keeps the choice. -/
theorem Chosen.step {op : Op T} (hsafe : Safe maximumPriority idle d op) :
    ∃ d' ready', Uniprocessor.step Priority.operations d op = some d' ∧
      Chosen maximumPriority idle d' ready' := by
  cases op with
  | unblock t => exact h.unblock hmax hsafe.1 hsafe.2
  | block t => exact h.block hmax hsafe.1.1 hsafe.1.2
  | yield => exact h.yield hmax
  | updatePriority t p b => exact h.updatePriority hmax hsafe.1
  | setPreemptible t b => exact hsafe.2.elim
  | schedule =>
    obtain ⟨d', hd', hchosen⟩ := chosen_scheduleBody_false h.context hmax h.idle_mem h.heir_mem
    exact ⟨d', ready, hd', hchosen⟩
  | dispatch => exact ⟨_, ready, rfl, { h with }⟩

/-- The choice gives all of it. -/
theorem Chosen.exact :
    PriorityExact d where
  minor_iff p hp := by
    rw [h.context.holds.bitMap.minor_iff p hp, h.context.holds.chain]
  major_iff := h.context.holds.bitMap.major_iff
  count_eq t p := by
    have hnodup : (d.context.queues.ready p).Nodup := by
      rw [h.context.holds.chain]
      exact List.Pairwise.filter _ h.context.ordered.nodup
    rw [hnodup.count]
    refine if_congr ?_ rfl rfl
    rw [h.context.holds.chain, Simple.group, List.mem_filter, h.context.ordered.mem_iff,
      decide_eq_true_iff]
    refine and_congr_right fun hr => ?_
    rw [h.context.current t ((h.context.ordered.mem_iff t).mpr hr), eq_comm]
  heir hpre := by
    obtain ⟨rest, hready⟩ := List.head?_eq_some_iff.mp (h.first hpre)
    have hmem : d.cpu.heir ∈ ready := h.heir_mem
    have hp : d.priority d.cpu.heir < 256 := by
      have := h.context.ordered.le_maximum d.cpu.heir
      rw [State.priority]
      omega
    have hset (p : Nat) (hp : p < 256) : d.context.queues.bitMap.isSet p = true ↔
        ∃ u ∈ ready, d.priority u = p := by
      rw [h.context.holds.bitMap.minor_iff p hp, Simple.group, ne_eq, List.filter_eq_nil_iff]
      simp [State.priority]
    refine ⟨d.priority d.cpu.heir, ⟨⟨hp, (hset _ hp).mpr ⟨_, hmem, rfl⟩⟩, ?_⟩, ?_⟩
    · rintro p ⟨hp, hbit⟩
      obtain ⟨u, hu, rfl⟩ := (hset p hp).mp hbit
      exact SortedBy.head_le (hready ▸ h.context.ordered.sorted) (hready ▸ hu)
    · rw [h.context.holds.chain, Simple.group, hready]
      simp [State.priority]

end

/-- From the creation of the idle thread on, after every run of safe operations the bit
map and the chains are exact and a preemptible heir is the right one. Every safe
operation is defined. -/
theorem priority_scheduler_exact (maximumPriority : Nat) (thread : T → Thread) (idle : T)
    (hmax : maximumPriority ≤ 255) (hvalid : ∀ t, (thread t).Valid maximumPriority)
    (hblocked : ∀ t, (thread t).isReady = false) :
    ∃ d₀, createIdle Priority.operations thread (Priority.initialized thread) idle = some d₀ ∧
      ∀ actions d, Run (step Priority.operations) (Safe maximumPriority idle) d₀ actions d →
        PriorityExact d ∧ ∀ op, Safe maximumPriority idle d op →
          (step Priority.operations d op).isSome = true := by
  obtain ⟨d₀, ready, hd₀, hchosen⟩ := exists_createIdle hmax hvalid hblocked idle
  refine ⟨d₀, hd₀, fun actions d hrun => ?_⟩
  obtain ⟨ready, h⟩ := hrun.invariant (fun d => ∃ ready, Chosen maximumPriority idle d ready)
    ⟨ready, hchosen⟩ (by
      rintro d op d' ⟨ready, h⟩ hsafe hstep
      obtain ⟨d'', ready', hres, h'⟩ := h.step hmax hsafe
      rw [hstep, Option.some_inj] at hres
      exact ⟨ready', hres ▸ h'⟩)
  refine ⟨h.exact hmax, fun op hsafe => ?_⟩
  obtain ⟨d', ready', hres, -⟩ := h.step hmax hsafe
  rw [hres]
  rfl

instance (d : State T (Priority.Context T)) (t : T) : Decidable (NoneBehind d t) :=
  inferInstanceAs (Decidable (_ → _))

instance (maximumPriority : Nat) (idle : T) (d : State T (Priority.Context T)) :
    (op : Op T) → Decidable (Safe maximumPriority idle d op)
  | .unblock _ => inferInstanceAs (Decidable (_ ∧ NoneBehind _ _))
  | .setPreemptible _ _ => isFalse fun h => h.2
  | .block _ | .yield | .updatePriority _ _ _ | .schedule | .dispatch =>
    inferInstanceAs (Decidable (_ ∧ True))

/-- An idle thread and three pseudo interrupt threads, the first one not preemptible. -/
def pseudoIsrThreads (t : Fin 4) : Thread :=
  if t = 0 then ⟨false, true, 255, 255, false⟩
  else ⟨false, decide (t ≠ 1), 0, 0, false⟩

theorem priority_scheduler_exact_pseudoIsr :
    ∃ d₀ d, createIdle Priority.operations pseudoIsrThreads
        (Priority.initialized pseudoIsrThreads) 0 = some d₀ ∧
      Run (step Priority.operations) (Safe 255 0) d₀
        [.unblock 1, .dispatch, .unblock 2, .updatePriority 1 5 false, .block 1] d ∧
      PriorityExact d ∧ d.cpu.heir = 2 := by
  obtain ⟨d₀, hd₀, hexact⟩ :=
    priority_scheduler_exact 255 pseudoIsrThreads 0 le_rfl (by decide) (by decide)
  have hexec : ∃ d, exec (step Priority.operations) (Safe 255 0) d₀
      [.unblock 1, .dispatch, .unblock 2, .updatePriority 1 5 false, .block 1] = some d ∧
      d.cpu.heir = 2 := by
    cases hd₀
    exact ⟨_, rfl, rfl⟩
  obtain ⟨d, hd, hheir⟩ := hexec
  exact ⟨d₀, d, hd₀, .of_exec hd, (hexact _ d (.of_exec hd)).1, hheir⟩

/-- A pseudo interrupt thread is unblocked while another one is ready behind a heir that
is not preemptible and has lost this priority. It becomes the heir although it is not
the first thread of its chain. -/
theorem priority_scheduler_overtakes :
    ∃ d₀ d, createIdle Priority.operations pseudoIsrThreads
        (Priority.initialized pseudoIsrThreads) 0 = some d₀ ∧
      Run (step Priority.operations) (Legal 255 0) d₀
        [.unblock 1, .dispatch, .unblock 2, .updatePriority 1 5 false, .unblock 3] d ∧
      d.cpu.heir = 3 ∧ (d.thread 3).isPreemptible = true ∧
      d.context.queues.bitMap.isSet 0 = true ∧ d.context.queues.ready 0 = [2, 3] :=
  ⟨_, _, rfl, .of_exec rfl, rfl, rfl, rfl, rfl⟩

end Rtems.Scheduler.Uniprocessor
