import Rtems.Core.Run
import Rtems.Models.Scheduler.Smp.Invariant

/-!
# Preservation by the operations of the kernel

The events that reach the scheduler of an instance, from the creation of its idle
threads on. Every legal event is defined and keeps the invariant.
-/

namespace Rtems.Scheduler.Smp

variable {T C R : Type*} [DecidableEq T] [DecidableEq C]

/-- The events that reach the scheduler. -/
inductive Op (T : Type*)
  | block (t : T)
  | unblock (t : T)
  /-- A new priority of the home node followed by `_Scheduler_Update_priority`. -/
  | updatePriority (t : T) (newPriority : Nat) (prependIt : Bool)
  /-- `_Thread_Yield`. -/
  | yield (t : T)
  /-- A context switch starts or stops the execution of a thread. -/
  | setExecuting (t : T) (isExecuting : Bool)

/-- One event, with a bound on the iterations of the loops. -/
def step (cb : Callbacks T C R) (fuel : Nat) (s : State T C R) : Op T → Option (State T C R)
  | .block t => block cb fuel (s.setThread t fun th => { th with isReady := false }) t
  | .unblock t => unblock cb (s.setThread t fun th => { th with isReady := true }) t
  | .updatePriority t p b =>
    updatePriority cb fuel (s.setNode t fun node => { node with value := p, prependIt := b }) t
  | .yield t => if (s.thread t).isReady then yield cb fuel s t else some s
  | .setExecuting t b => some (s.setThread t fun th => { th with isExecuting := b })

/-- What the callers promise: no operation on idle threads, only ready threads are
blocked, only blocked ones unblocked, and priorities are in the scheduler's range. -/
def Legal (I : Instance T C) (s : State T C R) : Op T → Prop
  | .block t => t ∉ I.idles ∧ (s.thread t).isReady = true
  | .unblock t => t ∉ I.idles ∧ (s.thread t).isReady = false
  | .updatePriority t p _ => t ∉ I.idles ∧ p ≤ I.maximumPriority
  | .yield t => t ∉ I.idles
  | .setExecuting _ _ => True

instance (I : Instance T C) (s : State T C R) (op : Op T) : Decidable (Legal I s op) := by
  cases op <;> unfold Legal <;> infer_instance

/-- A scheduled thread that blocks may leave its processor. -/
def Vacates (σ : Policy T C R) (s : State T C R) : Op T → Prop
  | .block t => (s.node t).state = .scheduled → σ.vacates s.priority s.context t
  | _ => True

variable {threadState : ThreadState} {isReady : Bool} {node : Node T}

section Steps

variable {cb : Callbacks T C R} {I : Instance T C} {σ : Policy T C R}
  {s : State T C R} {n : T}

omit [DecidableEq C] in
/-- The priority a node is to get does not matter before it is taken over. -/
theorem Invariant.setValue (h : Invariant I σ.queues nobody nobody s) {p : Nat} (b : Bool)
    (hp : p ≤ I.maximumPriority) :
    Invariant I σ.queues nobody nobody
      (s.setNode n fun node => { node with value := p, prependIt := b }) := by
  have hnode : ∀ u, ((s.setNode n fun node =>
      { node with value := p, prependIt := b }).node u).state = (s.node u).state := by
    intro u
    by_cases hu : u = n
    · subst hu
      simp [State.setNode]
    · simp [State.setNode, hu]
  have hpriority : (s.setNode n fun node =>
      { node with value := p, prependIt := b }).priority = s.priority := s.priority_setNode n rfl
  refine ⟨?_, h.nodup, ?_, ?_, ?_, ?_⟩
  · intro u
    by_cases hu : u = n
    · subst hu
      have hc := h.consistent u
      constructor <;> simp [State.setNode, hc.user, hc.idle, hc.state, hp]
      · exact hc.notBlocked
      · exact hc.stickyLevel
      · exact hc.isReady
    · simpa [State.setNode, hu] using h.consistent u
  · intro u
    rw [hnode]
    exact h.mem_iff u
  · rw [hpriority]
    exact h.sorted
  · rw [hpriority]
    exact queues_congr h.queues (fun u => by rw [hnode]) fun _ => Iff.rfl
  · exact h.heirs.congr (fun u => by rw [hnode]) fun _ _ => rfl

omit [DecidableEq T] [DecidableEq C] in
/-- A blocked node is off all queues. -/
theorem Invariant.out_of_blocked {extra : T → Prop} (hn : (s.node n).state = .blocked) :
    Invariant I σ.queues (· = n) extra s ↔ Invariant I σ.queues nobody extra s := by
  have hout : ∀ x : NodeState, x ≠ .blocked → ∀ u,
      ((s.node u).state = x ∧ ¬u = n ↔ (s.node u).state = x ∧ ¬nobody u) := by
    intro x hx u
    simp only [nobody, not_false_eq_true, and_true, and_iff_left_iff_imp]
    rintro hu rfl
    exact hx (hu.symm.trans hn)
  constructor
  · intro h
    refine { h with mem_iff := ?_, queues := ?_ }
    · intro u
      rw [h.mem_iff, hout _ (by decide)]
    · exact queues_congr h.queues (fun u => (hout _ (by decide) u).symm) fun _ => Iff.rfl
  · intro h
    refine { h with mem_iff := ?_, queues := ?_ }
    · intro u
      rw [h.mem_iff, hout _ (by decide)]
    · exact queues_congr h.queues (hout _ (by decide)) fun _ => Iff.rfl

omit [DecidableEq T] [DecidableEq C] in
/-- The fields of the node and of the thread of an unblocked thread. -/
private theorem Consistent.unblocked
    (h : Consistent I n node threadState isReady) (hn : n ∉ I.idles)
    (hs : node.state = .blocked) (p : Nat) :
    Consistent I n { node with stickyLevel := node.stickyLevel + 1, priority := p, state := .ready }
      .ready true where
  __ := h
  state := rfl
  notBlocked hi := absurd hi hn
  stickyLevel hi := by
    have hsticky : node.stickyLevel = 0 := by
      rw [h.stickyLevel hi, if_pos hs]
    simp [hsticky]
  isReady _ := by simp

omit [DecidableEq T] [DecidableEq C] in
/-- The fields of the node and of the thread of a blocked thread. -/
private theorem Consistent.blocked (h : Consistent I n node threadState isReady) (hn : n ∉ I.idles)
    (hs : node.stickyLevel = 1) :
    Consistent I n { node with stickyLevel := node.stickyLevel - 1, state := .blocked }
      .blocked false where
  __ := h
  state := rfl
  notBlocked hi := absurd hi hn
  stickyLevel _ := by simp [hs]
  isReady _ := by simp

section

variable (hcb : Laws cb I σ) (h : Invariant I σ.queues nobody nobody s)
include hcb h

/-- Asking for help changes nothing: no thread takes part in the helping protocol. -/
theorem Invariant.askForHelp : askForHelp cb s n = some s := by
  have hheirs : Assignment (· ∈ I.cpus) s.cpu s.heir (· ∈ s.scheduled) :=
    h.heirs.congr (fun u => by simp [h.mem_iff, nobody]) fun _ _ => rfl
  obtain ⟨w, -, hw, -⟩ := (hcb.enqueues n).getLowestScheduled h.queues h.sorted hheirs
  rw [Smp.askForHelp, hw, Option.bind_some]
  have hstate := (h.consistent n).state
  cases hs : (s.node n).state with
  | blocked => rw [if_neg (by simp [hstate, hs, NodeState.toThreadState])]
  | scheduled => rw [if_neg (by simp [hstate, hs, NodeState.toThreadState])]
  | ready =>
    split <;> rfl

section

variable (hn : n ∉ I.idles)
include hn

/-- Yielding keeps the invariant. -/
theorem Invariant.yield (fuel : Nat) :
    ∃ s', yield cb (fuel + 1) s n = some s' ∧ Invariant I σ.queues nobody nobody s' := by
  unfold Smp.yield
  cases hs : (s.node n).state with
  | blocked => exact ⟨s, rfl, h⟩
  | scheduled =>
    obtain ⟨s', b, hs', hinv⟩ := (h.extractFromScheduled hcb hs).enqueueScheduledOrdered hcb
      (discipline_fifo cb) hs hn fuel
    exact ⟨s', by rw [enqueueScheduledFifo, hs', Option.map_some], hinv⟩
  | ready =>
    obtain ⟨r, hr, hex⟩ := h.extractFromReady hcb hs
    obtain ⟨s', b, hs', hinv⟩ := hex.enqueueOrdered (hcb.enqueues n) (discipline_fifo cb) (by rw [hr]; exact hs)
    exact ⟨s', by rw [enqueueFifo, hs', Option.map_some], hinv⟩

/-- A priority update keeps the invariant. -/
theorem Invariant.updatePriority (fuel : Nat) :
    ∃ s', updatePriority cb (fuel + 1) s n = some s' ∧ Invariant I σ.queues nobody nobody s' := by
  have hp := (h.consistent n).value_le
  unfold Smp.updatePriority
  dsimp only
  by_cases hsame : (s.node n).value = s.priority n
  · rw [if_pos hsame, h.askForHelp hcb]
    split <;> exact ⟨s, rfl, h⟩
  · rw [if_neg hsame]
    cases hs : (s.node n).state with
    | blocked =>
      obtain ⟨hup, hstate⟩ := ((Invariant.out_of_blocked hs).mpr h).doUpdate hcb hp
      have hup' := (Invariant.out_of_blocked (hstate.trans hs)).mp hup
      dsimp only
      rw [hup'.askForHelp hcb]
      split <;> exact ⟨_, rfl, hup'⟩
    | scheduled =>
      obtain ⟨hup, hstate⟩ := (h.extractFromScheduled hcb hs).doUpdate hcb hp
      have hs' := hstate.trans hs
      dsimp only
      split
      · obtain ⟨s', b, hs', hinv⟩ := hup.enqueueScheduledOrdered hcb (discipline_lifo cb) hs' hn fuel
        exact ⟨s', by rw [enqueueScheduledLifo, hs', Option.map_some], hinv⟩
      · obtain ⟨s', b, hs', hinv⟩ := hup.enqueueScheduledOrdered hcb (discipline_fifo cb) hs' hn fuel
        exact ⟨s', by rw [enqueueScheduledFifo, hs', Option.map_some], hinv⟩
    | ready =>
      obtain ⟨r, hr, hex⟩ := h.extractFromReady hcb hs
      obtain ⟨hup, hstate⟩ := hex.doUpdate hcb hp
      have hs' : ((cb.doUpdate (cb.extractFromReady s n) n (s.node n).value).node n).state =
          .ready := by
        rw [hstate, hr]
        exact hs
      dsimp only
      split
      · obtain ⟨s', b, hs', hinv⟩ := hup.enqueueOrdered (hcb.enqueues n) (discipline_lifo cb) hs'
        exact ⟨s', by rw [enqueueLifo, hs', Option.map_some], hinv⟩
      · obtain ⟨s', b, hs', hinv⟩ := hup.enqueueOrdered (hcb.enqueues n) (discipline_fifo cb) hs'
        exact ⟨s', by rw [enqueueFifo, hs', Option.map_some], hinv⟩

/-- Unblocking keeps the invariant. -/
theorem Invariant.unblock (hr : (s.thread n).isReady = false) :
    ∃ s', unblock cb (s.setThread n fun th => { th with isReady := true }) n = some s' ∧
      Invariant I σ.queues nobody nobody s' := by
  have hs := not_not.mp (mt ((h.consistent n).isReady hn).mpr (Bool.not_eq_true _ ▸ hr))
  let s₁ := ((s.setThread n fun th => { th with isReady := true }).setNode n fun node =>
    { node with stickyLevel := node.stickyLevel + 1 }).threadChangeState n .ready
  have hpriority : s₁.priority = s.priority := by
    rw [State.priority_threadChangeState, State.priority_setNode _ n (by rfl)]
    rfl
  have hcpu₁ : s₁.cpu = s.cpu := by
    rw [State.cpu_threadChangeState]
    exact s.cpu_setThread n (f := fun th => { th with isReady := true }) rfl
  have hvalue : (s₁.node n).value = (s.node n).value := by
    simp [s₁, State.setNode, State.setThread]
  have hnot : ∀ u ∈ s.scheduled, u ≠ n := by
    rintro u hu rfl
    rw [((h.mem_iff u).mp hu).1] at hs
    cases hs
  have hupdate : ∃ r, (if (s₁.node n).value ≠ s₁.priority n then
        cb.doUpdate s₁ n (s₁.node n).value else s₁) =
        { s₁.nodeUpdatePriority n (s.node n).value with context := r } ∧
      σ.queues (s₁.nodeUpdatePriority n (s.node n).value).priority s.heir r
        (fun u => (s.node u).state = .ready ∧ ¬nobody u) (· ∈ s.scheduled) := by
    have hqueues : σ.queues s₁.priority s₁.heir s₁.context
        (fun u => (s.node u).state = .ready ∧ ¬nobody u) (· ∈ s.scheduled) := by
      rw [hpriority]
      exact h.queues
    rw [hvalue]
    by_cases heq : (s.node n).value = s₁.priority n
    · rw [if_neg (by simpa using heq)]
      have hself : s₁.nodeUpdatePriority n (s.node n).value = s₁ := by
        rw [heq, State.nodeUpdatePriority, State.setNode]
        simp [State.priority]
      exact ⟨s₁.context, by rw [hself], by rw [hself]; exact hqueues⟩
    · rw [if_pos heq]
      exact hcb.doUpdate hqueues (by simp [hs]) (fun hmem => hnot n hmem rfl)
        (h.consistent n).value_le
  obtain ⟨r, hupdate, hqueues⟩ := hupdate
  let s₂ : State T C R :=
    State.nodeChangeState { s₁.nodeUpdatePriority n (s.node n).value with context := r } n .ready
  have hresult : Smp.unblock cb (s.setThread n fun th => { th with isReady := true }) n =
      (enqueueFifo cb s₂ n).map Prod.fst := by
    unfold Smp.unblock
    rw [show ((s.setThread n fun th => { th with isReady := true }).node n).state = _ from hs]
    change ((enqueueFifo cb (State.nodeChangeState (if (s₁.node n).value ≠ s₁.priority n then
      cb.doUpdate s₁ n (s₁.node n).value else s₁) n .ready) n).map Prod.fst) = _
    rw [hupdate]
  have hother : ∀ u, u ≠ n → s₂.node u = s.node u := by
    intro u hu
    simp [s₂, s₁, State.nodeUpdatePriority, State.setNode, State.setThread, hu]
  have hself : s₂.node n = { s.node n with
      stickyLevel := (s.node n).stickyLevel + 1, priority := (s.node n).value, state := .ready } := by
    simp [s₂, s₁, State.nodeUpdatePriority, State.setNode, State.setThread]
  have hthread : ∀ u, u ≠ n → s₂.thread u = s.thread u := by
    intro u hu
    simp [s₂, s₁, State.nodeUpdatePriority, State.setNode, State.setThread, hu]
  have hcpu : s₂.cpu = s.cpu := hcpu₁
  have hpri : ∀ u, u ≠ n → s₂.priority u = s.priority u := by
    intro u hu
    rw [State.priority, hother u hu, State.priority]
  have hready : (s₂.node n).state = .ready := by rw [hself]
  have hinv : Invariant I σ.queues (· = n) nobody s₂ := by
    refine ⟨?_, h.nodup, ?_, ?_, ?_, ?_⟩
    · intro u
      by_cases hu : u = n
      · subst hu
        rw [hself]
        have hstate : (s₂.thread u).state = .ready := by
          simp [s₂, s₁, State.nodeUpdatePriority, State.setNode, State.setThread]
        have hisReady : (s₂.thread u).isReady = true := by
          simp [s₂, s₁, State.nodeUpdatePriority, State.setNode, State.setThread]
        rw [hstate, hisReady]
        exact (h.consistent u).unblocked hn hs _
      · rw [hother u hu, hthread u hu]
        exact h.consistent u
    · intro u
      change u ∈ s.scheduled ↔ _
      rw [h.mem_iff]
      by_cases hu : u = n
      · subst hu
        simp [hs]
      · simp [hother u hu, hu, nobody]
    · exact h.sorted.congr fun u hu => (hpri u (hnot u hu)).symm
    · change σ.queues s₂.priority s.heir r _ (· ∈ s.scheduled)
      have hp₂ : s₂.priority = (s₁.nodeUpdatePriority n (s.node n).value).priority :=
        State.priority_nodeChangeState ..
      rw [hp₂]
      refine queues_congr hqueues ?_ fun _ => Iff.rfl
      intro u
      by_cases hu : u = n
      · subst hu
        simp [hs]
      · simp [hother u hu, hu, nobody]
    · rw [hcpu]
      refine h.heirs.congr ?_ fun _ _ => rfl
      intro u
      by_cases hu : u = n
      · subst hu
        simp [hready, hs, nobody]
      · simp [hother u hu]
  obtain ⟨s', b, hs', hinv'⟩ := hinv.enqueueOrdered (hcb.enqueues n) (discipline_fifo cb) hready
  exact ⟨s', by rw [hresult, enqueueFifo, hs', Option.map_some], hinv'⟩

/-- Blocking keeps the invariant. -/
theorem Invariant.block (hr : (s.thread n).isReady = true)
    (hvacates : (s.node n).state = .scheduled → σ.vacates s.priority s.context n) (fuel : Nat) :
    ∃ s', block cb (fuel + 1) (s.setThread n fun th => { th with isReady := false }) n = some s' ∧
      Invariant I σ.queues nobody nobody s' := by
  have hnb : (s.node n).state ≠ .blocked := ((h.consistent n).isReady hn).mp hr
  have hsticky : (s.node n).stickyLevel = 1 := by
    rw [(h.consistent n).stickyLevel hn, if_neg hnb]
  let s₁ := (((s.setThread n fun th => { th with isReady := false }).setNode n fun node =>
    { node with stickyLevel := node.stickyLevel - 1 }).threadChangeState n
      .blocked).nodeChangeState n .blocked
  have hother : ∀ u, u ≠ n → s₁.node u = s.node u := by
    intro u hu
    simp [s₁, State.setNode, State.setThread, hu]
  have hself : s₁.node n = { s.node n with
      stickyLevel := (s.node n).stickyLevel - 1, state := .blocked } := by
    simp [s₁, State.setNode, State.setThread]
  have hthread : ∀ u, u ≠ n → s₁.thread u = s.thread u := by
    intro u hu
    simp [s₁, State.setNode, State.setThread, hu]
  have hcpu : s₁.cpu = s.cpu := by
    rw [State.cpu_nodeChangeState, State.cpu_threadChangeState]
    exact s.cpu_setThread n (f := fun th => { th with isReady := false }) rfl
  have hpriority : s₁.priority = s.priority := by
    rw [State.priority_nodeChangeState, State.priority_threadChangeState,
      State.priority_setNode _ n (by rfl)]
    rfl
  have hstate : ∀ x : NodeState, x ≠ .blocked → ∀ u,
      ((s₁.node u).state = x ↔ (s.node u).state = x ∧ ¬u = n) := by
    intro x hx u
    by_cases hu : u = n
    · subst hu
      simp [hself, Ne.symm hx]
    · simp [hother u hu, hu]
  have hconsistent : ∀ u,
      Consistent I u (s₁.node u) (s₁.thread u).state (s₁.thread u).isReady := by
    intro u
    by_cases hu : u = n
    · subst hu
      have hts : (s₁.thread u).state = .blocked := by
        simp [s₁, State.setNode, State.setThread]
      have htr : (s₁.thread u).isReady = false := by
        simp [s₁, State.setNode, State.setThread]
      rw [hself, hts, htr]
      exact (h.consistent u).blocked hn hsticky
    · rw [hother u hu, hthread u hu]
      exact h.consistent u
  unfold Smp.block
  dsimp only
  rw [State.blockNode, if_neg (by simp [State.setNode, State.setThread, hsticky]), Option.bind_some]
  dsimp only
  split
  next hs =>
    replace hs : (s.node n).state = .scheduled := hs
    change ∃ s', Smp.scheduleHighestReady cb (fuel + 1) (s₁.extractFromScheduled n) n
      ((s.setThread n fun th => { th with isReady := false }).cpu n) = some s' ∧ _
    have hcpun : (s.setThread n fun th => { th with isReady := false }).cpu n =
        (s₁.extractFromScheduled n).cpu n := by
      change _ = s₁.cpu n
      rw [hcpu]
      simp [State.cpu, State.setThread]
    rw [hcpun]
    have hblocked : ((s₁.extractFromScheduled n).node n).state = .blocked := by
      change (s₁.node n).state = _
      rw [hself]
    have hvacates₁ : σ.vacates (s₁.extractFromScheduled n).priority
        (s₁.extractFromScheduled n).context n := by
      change σ.vacates s₁.priority s.context n
      rw [hpriority]
      exact hvacates hs
    refine Invariant.scheduleHighestReady hcb ?_ hblocked hn hvacates₁ fuel
    refine ⟨hconsistent, h.nodup.erase n, ?_, ?_, ?_, ?_⟩
    · intro u
      change u ∈ s.scheduled.erase n ↔ (s₁.node u).state = .scheduled ∧ ¬u = n
      rw [h.nodup.mem_erase_iff, h.mem_iff, hstate _ (by decide)]
      simp only [nobody, not_false_eq_true, and_true]
      tauto
    · change SortedBy s₁.priority (s.scheduled.erase n)
      rw [hpriority]
      exact h.sorted.erase n
    · change σ.queues s₁.priority s.heir s.context _ (· ∈ s.scheduled.erase n)
      rw [hpriority]
      have hsub : ∀ u, u ∈ s.scheduled.erase n → u ∈ s.scheduled :=
        fun u => List.mem_of_mem_erase
      refine queues_congr (hcb.extractFromScheduled h.queues hsub) ?_ fun _ => Iff.rfl
      intro u
      change (s₁.node u).state = .ready ∧ ¬u = n ↔ (s.node u).state = .ready ∧ ¬False
      rw [hstate _ (by decide)]
      by_cases hu : u = n
      · simp [hu, hs]
      · simp [hu]
    · change Assignment _ s₁.cpu s.heir _
      rw [hcpu]
      refine h.heirs.congr ?_ fun _ _ => rfl
      intro u
      change (s₁.node u).state = .scheduled ∨ u = n ↔ _
      rw [hstate _ (by decide)]
      by_cases hu : u = n
      · simp [hu, hs]
      · simp [hu, nobody]
  next hs =>
    replace hs : (s.node n).state = .ready := hs
    have hqueues : σ.queues s₁.priority s₁.heir s₁.context
        (fun u => (s.node u).state = .ready ∧ ¬nobody u) (· ∈ s.scheduled) := by
      rw [hpriority]
      exact h.queues
    obtain ⟨r, hex, hr⟩ := hcb.extractFromReady hqueues ⟨hs, id⟩
    refine ⟨_, rfl, ?_⟩
    change Invariant I σ.queues nobody nobody (cb.extractFromReady s₁ n)
    rw [hex]
    refine ⟨hconsistent, h.nodup, ?_, ?_, ?_, ?_⟩
    · intro u
      change u ∈ s.scheduled ↔ (s₁.node u).state = .scheduled ∧ ¬False
      rw [h.mem_iff, hstate _ (by decide)]
      by_cases hu : u = n
      · simp [hu, hs]
      · simp [hu, nobody]
    · exact hpriority ▸ h.sorted
    · refine queues_congr hr ?_ fun _ => Iff.rfl
      intro u
      change (s₁.node u).state = .ready ∧ ¬False ↔ u ≠ n ∧ (s.node u).state = .ready ∧ ¬False
      rw [hstate _ (by decide)]
      simp only [not_false_eq_true, and_true]
      exact and_comm
    · change Assignment _ s₁.cpu s.heir _
      rw [hcpu]
      refine h.heirs.congr ?_ fun _ _ => rfl
      intro u
      change (s₁.node u).state = .scheduled ∨ nobody u ↔ _
      rw [hstate _ (by decide)]
      by_cases hu : u = n
      · simp [hu, hs]
      · simp [hu]
  next hs => exact absurd hs hnb

end

/-- Every legal event is defined and keeps the invariant. -/
theorem Invariant.step
    {op : Op T} (hlegal : Legal I s op) (hvacates : Vacates σ s op) (fuel : Nat) :
    ∃ s', step cb (fuel + 1) s op = some s' ∧ Invariant I σ.queues nobody nobody s' := by
  cases op with
  | block t => exact h.block hcb hlegal.1 hlegal.2 hvacates fuel
  | unblock t => exact h.unblock hcb hlegal.1 hlegal.2
  | updatePriority t p b => exact (h.setValue b hlegal.2).updatePriority hcb hlegal.1 fuel
  | yield t =>
    simp only [Smp.step]
    split
    · exact h.yield hcb hlegal fuel
    · exact ⟨s, rfl, h⟩
  | setExecuting t b =>
    refine ⟨_, rfl, { h with consistent := ?_, heirs := ?_ }⟩
    · intro u
      by_cases hu : u = t
      · subst hu
        simpa [State.setThread] using h.consistent u
      · simpa [State.setThread, hu] using h.consistent u
    · refine h.heirs.congr (fun _ => Iff.rfl) ?_
      intro u _
      by_cases hu : u = t
      · subst hu
        simp [State.setThread, State.cpu]
      · simp [State.setThread, State.cpu, hu]

end

end Steps

section Start

/-- The initialised instance: every node is off all queues and blocked, its priorities
are in range, and the idle threads share one priority. -/
structure Initialized (I : Instance T C) (s : State T C R) : Prop where
  node : ∀ u, s.node u = ⟨.blocked, (s.node u).priority, (s.node u).value, (s.node u).prependIt,
    0, u, none⟩
  priority_le : ∀ u, s.priority u ≤ I.maximumPriority
  value_le : ∀ u, (s.node u).value ≤ I.maximumPriority
  thread : ∀ u, (s.thread u).state = .blocked ∧ (s.thread u).isReady = false
  scheduled : s.scheduled = []
  idle_priority : ∀ i ∈ I.idles, ∀ j ∈ I.idles, s.priority i = s.priority j

/-- `_Thread_Create_idle`: one idle thread for each processor of the instance. -/
def createIdle (cb : Callbacks T C R) (I : Instance T C) (s : State T C R) : State T C R :=
  (I.cpus.zip I.idles).foldl (fun s p => createIdleForCpu cb s p.2 p.1) s

/-- The state after some idle threads were created, which were registered by `register`. -/
structure Started (register : R → T → C → R) (s₀ : State T C R) (ps : List (C × T))
    (s : State T C R) : Prop where
  node_idle : ∀ u ∈ ps.map Prod.snd, s.node u = { s₀.node u with state := .scheduled }
  node_other : ∀ u, u ∉ ps.map Prod.snd → s.node u = s₀.node u
  thread_idle : ∀ u ∈ ps.map Prod.snd, (s.thread u).state = .scheduled
  thread_other : ∀ u, u ∉ ps.map Prod.snd → s.thread u = s₀.thread u
  scheduled : s.scheduled = ps.map Prod.snd
  context : s.context = ps.foldl (fun r p => register r p.2 p.1) s₀.context
  heir : ∀ p ∈ ps, s.heir p.1 = p.2
  heirs : Assignment (· ∈ ps.map Prod.fst) s.cpu s.heir (· ∈ ps.map Prod.snd)

variable {cb : Callbacks T C R} {register : R → T → C → R} {I : Instance T C}
  {s s₀ : State T C R}

section

variable (hreg : ∀ s i c, cb.registerIdle s i c = { s with context := register s.context i c })
include hreg

/-- One more idle thread is created. -/
theorem Started.createIdleForCpu {ps : List (C × T)} (h : Started register s₀ ps s) {c : C} {i : T}
    (hc : c ∉ ps.map Prod.fst) (hi : i ∉ ps.map Prod.snd) :
    Started register s₀ (ps ++ [(c, i)]) (createIdleForCpu cb s i c) := by
  have hresult : Smp.createIdleForCpu cb s i c =
      { s with
        node := Function.update s.node i { s.node i with state := .scheduled }
        thread := Function.update s.thread i
          { s.thread i with state := .scheduled, cpu := c, isReady := true }
        heir := Function.update s.heir c i
        scheduled := s.scheduled ++ [i]
        idleThreads := i :: s.idleThreads
        context := register s.context i c } := by
    simp [Smp.createIdleForCpu, startIdle, hreg, State.threadChangeState, State.nodeChangeState,
      State.setCpu, State.setThread, State.setNode, State.dispatchUpdateHeir,
      State.smpReleaseIdleThread]
  rw [hresult]
  have hmem : ∀ u, u ∈ (ps ++ [(c, i)]).map Prod.snd ↔ u = i ∨ u ∈ ps.map Prod.snd := by
    intro u
    rw [List.map_append, List.mem_append, or_comm]
    simp
  refine ⟨?_, ?_, ?_, ?_, ?_, ?_, ?_, ?_⟩
  · intro u hu
    by_cases hui : u = i
    · subst hui
      simp [h.node_other u hi]
    · simpa [hui] using h.node_idle u (((hmem u).mp hu).resolve_left hui)
  · intro u hu
    have hu' := (not_congr (hmem u)).mp hu
    have hui : u ≠ i := fun he => hu' (.inl he)
    simpa [hui] using h.node_other u fun hm => hu' (.inr hm)
  · intro u hu
    by_cases hui : u = i
    · subst hui
      simp
    · simpa [hui] using h.thread_idle u (((hmem u).mp hu).resolve_left hui)
  · intro u hu
    have hu' := (not_congr (hmem u)).mp hu
    have hui : u ≠ i := fun he => hu' (.inl he)
    simpa [hui] using h.thread_other u fun hm => hu' (.inr hm)
  · simp [h.scheduled]
  · rw [List.foldl_append, ← h.context]
    rfl
  · intro p hp
    rcases List.mem_append.mp hp with hps | hps
    · have hpc : p.1 ≠ c := by
        intro he
        exact hc (he ▸ List.mem_map_of_mem hps)
      simpa [hpc] using h.heir p hps
    · rw [List.mem_singleton.mp hps]
      simp
  · refine h.heirs.extend hc hi ?_ hmem ?_ ?_
    · intro d
      simp [or_comm]
    · simp [State.cpu]
    · intro u hu
      simp [State.cpu, hu]

/-- All idle threads are created. -/
theorem started_createIdle (h : s₀.scheduled = []) :
    Started register s₀ (I.cpus.zip I.idles) (createIdle cb I s₀) := by
  have hpart : ∀ ps : List (C × T), ps <+: I.cpus.zip I.idles →
      Started register s₀ ps (ps.foldl (fun s p => createIdleForCpu cb s p.2 p.1) s₀) := by
    intro ps
    induction ps using List.reverseRecOn with
    | nil =>
      intro _
      exact ⟨by simp, fun _ _ => rfl, by simp, fun _ _ => rfl, h, rfl, by simp, by
        simpa using Assignment.empty s₀.cpu s₀.heir⟩
    | append_singleton ps p ih =>
      intro hp
      have hsub := hp.sublist
      have hcs : ((ps ++ [p]).map Prod.fst).Nodup :=
        (I.map_fst_zip ▸ I.cpus_nodup).sublist (hsub.map Prod.fst)
      have his : ((ps ++ [p]).map Prod.snd).Nodup :=
        (I.map_snd_zip ▸ I.idles_nodup).sublist (hsub.map Prod.snd)
      rw [List.foldl_append]
      refine (ih ((List.prefix_append ps [p]).trans hp)).createIdleForCpu hreg ?_ ?_
      · rw [List.map_append, List.nodup_append] at hcs
        intro hmem
        exact hcs.2.2 _ hmem p.1 (by simp) rfl
      · rw [List.map_append, List.nodup_append] at his
        intro hmem
        exact his.2.2 _ hmem p.2 (by simp) rfl
  exact hpart _ (List.prefix_refl _)

end

/-- The invariant holds once all idle threads are created. -/
theorem Initialized.createIdle {Q : Queues T C R} (register : R → T → C → R)
    (hreg : ∀ s i c, cb.registerIdle s i c = { s with context := register s.context i c })
    (h : Initialized I s₀)
    (hQ : ∀ heir : C → T, (∀ p ∈ I.cpus.zip I.idles, heir p.1 = p.2) →
      Q s₀.priority heir
        ((I.cpus.zip I.idles).foldl (fun r p => register r p.2 p.1) s₀.context)
        (fun _ => False) (· ∈ I.idles)) :
    Invariant I Q nobody nobody (createIdle cb I s₀) := by
  have hst := started_createIdle (I := I) hreg h.scheduled
  generalize Smp.createIdle cb I s₀ = s at hst ⊢
  obtain ⟨hni, hno, hti, hto, hsched, hcontext, hheir, hheirs⟩ := hst
  rw [I.map_snd_zip] at hni hno hti hto hsched hheirs
  rw [I.map_fst_zip] at hheirs
  have hstate : ∀ u, (s.node u).state = .scheduled ↔ u ∈ I.idles := by
    intro u
    by_cases hu : u ∈ I.idles
    · simp [hni u hu, hu]
    · rw [hno u hu, h.node u]
      simp [hu]
  have hnready : ∀ u, (s.node u).state ≠ .ready := by
    intro u
    by_cases hu : u ∈ I.idles
    · simp [hni u hu]
    · rw [hno u hu, h.node u]
      simp
  have hpriority : s.priority = s₀.priority := by
    funext u
    by_cases hu : u ∈ I.idles
    · simp [State.priority, hni u hu]
    · simp [State.priority, hno u hu]
  refine ⟨?_, ?_, ?_, ?_, ?_, ?_⟩
  · intro u
    by_cases hu : u ∈ I.idles
    · rw [hni u hu, h.node u, hti u hu]
      exact ⟨rfl, rfl, rfl, h.value_le u, by simp, fun hn => absurd hu hn, fun hn => absurd hu hn⟩
    · rw [hno u hu, h.node u, hto u hu, (h.thread u).1, (h.thread u).2]
      exact ⟨rfl, rfl, rfl, h.value_le u, fun hi => absurd hi hu, by simp, by simp⟩
  · rw [hsched]
    exact I.idles_nodup
  · intro u
    rw [hsched, hstate]
    simp [nobody]
  · rw [hsched, hpriority]
    refine List.pairwise_of_forall_mem_list ?_
    intro i hi j hj
    exact le_of_eq (h.idle_priority i hi j hj)
  · rw [hpriority, hcontext, hsched]
    exact queues_congr (hQ s.heir hheir) (fun u => by simp [hnready]) fun _ => Iff.rfl
  · exact hheirs.congr (fun u => by simp [hstate, nobody]) fun _ _ => rfl

end Start

end Rtems.Scheduler.Smp
