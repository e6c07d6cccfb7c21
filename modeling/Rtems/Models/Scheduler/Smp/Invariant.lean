import Rtems.Models.Scheduler.Smp.Allocation
import Rtems.Models.Scheduler.Smp.Operations

/-!
# Invariant of the multiprocessor schedulers

The invariant of an instance, over the policy of its scheduler: what the scheduler keeps
about its queues and which node it chooses. One node is possibly off all queues and one
thread possibly still on its processor, as it is in the middle of an operation. Every
shared operation is defined and keeps the invariant, given laws about the functions that
the scheduler passes to it.
-/

namespace Rtems.Scheduler.Smp

variable {T C R : Type*} [DecidableEq T] [DecidableEq C]

/-- The queues as a relation between the priorities, the heirs, the context, the ready
nodes and the scheduled nodes. -/
abbrev Queues (T C R : Type*) := (T → Nat) → (C → T) → R → (T → Prop) → (T → Prop) → Prop

/-- What a scheduler keeps about its queues, and how it chooses from them. -/
structure Policy (T C R : Type*) where
  queues : Queues T C R
  /-- The scheduled node that a newcomer may displace. -/
  lowest : (T → Nat) → R → (T → Prop) → T → T → Prop
  /-- The ready node that may take the place of a scheduled one. -/
  highest : (T → Nat) → R → (T → Prop) → T → T → Prop
  /-- The scheduled node may leave its processor without becoming ready. -/
  vacates : (T → Nat) → R → T → Prop

/-- The instance: its processors, its idle threads and its lowest priority. -/
structure Instance (T C : Type*) where
  cpus : List C
  idles : List T
  maximumPriority : Nat
  cpus_nodup : cpus.Nodup
  idles_nodup : idles.Nodup
  cpus_ne_nil : cpus ≠ []
  length_eq : idles.length = cpus.length

omit [DecidableEq T] [DecidableEq C] in
theorem Instance.map_fst_zip (I : Instance T C) : (I.cpus.zip I.idles).map Prod.fst = I.cpus :=
  List.map_fst_zip (le_of_eq I.length_eq.symm)

omit [DecidableEq T] [DecidableEq C] in
theorem Instance.map_snd_zip (I : Instance T C) : (I.cpus.zip I.idles).map Prod.snd = I.idles :=
  List.map_snd_zip (le_of_eq I.length_eq)

/-- A function that inserts a node into the scheduled chain. -/
def InsertsScheduled (insertScheduled : State T C R → T → State T C R) : Prop :=
  ∀ (s : State T C R) (n : T), ∃ l, insertScheduled s n = { s with scheduled := l } ∧
    l.Perm (n :: s.scheduled) ∧ (SortedBy s.priority s.scheduled → SortedBy s.priority l)

/-- The two functions that insert a node into the ready set. -/
def Callbacks.InsertsReady (cb : Callbacks T C R) (f : State T C R → T → State T C R) : Prop :=
  f = cb.insertReadyLifo ∨ f = cb.insertReadyFifo

/-- After an allocation the node has a processor in the place of the victim. -/
structure Allocated (I : Instance T C) (s s' : State T C R) (n victim : T) : Prop where
  same : SameButProcessors s s'
  heirs : ∀ {A A' : T → Prop}, Assignment (· ∈ I.cpus) s.cpu s.heir A → A victim → ¬A n →
    (∀ u, A' u ↔ u = n ∨ u ≠ victim ∧ A u) → Assignment (· ∈ I.cpus) s'.cpu s'.heir A'

section Laws

variable (cb : Callbacks T C R) (I : Instance T C) (σ : Policy T C R)

/-- What the enqueuing of one node relies on: it turns the queues `Q` into those of the
policy. -/
structure Enqueues (Q : Queues T C R) (n : T) : Prop where
  getLowestScheduled : ∀ ⦃s P⦄, Q s.priority s.heir s.context P (· ∈ s.scheduled) →
    SortedBy s.priority s.scheduled →
    Assignment (· ∈ I.cpus) s.cpu s.heir (· ∈ s.scheduled) →
    ∃ w ∈ s.scheduled, cb.getLowestScheduled s n = some w ∧
      σ.lowest s.priority s.context (· ∈ s.scheduled) n w
  insertReady : ∀ ⦃s P S w f⦄, cb.InsertsReady f → Q s.priority s.heir s.context P S →
    ¬P n → ¬S n → σ.lowest s.priority s.context S n w → S w → s.priority w ≤ s.priority n →
    ∃ r, f s n = { s with context := r } ∧
      σ.queues s.priority s.heir r (fun u => u = n ∨ P u) S
  replace : ∀ ⦃s P S w⦄, Q s.priority s.heir s.context P S → (∀ u, (s.node u).user = u) →
    ¬P n → ¬S n → S w → ¬P w → Assignment (· ∈ I.cpus) s.cpu s.heir S →
    σ.lowest s.priority s.context S n w → s.priority n ≤ s.priority w →
    Allocated I s (cb.allocateProcessor s n w (s.cpu w)) n w ∧
    ∀ l, ∃ r, cb.moveFromScheduledToReady
          { cb.allocateProcessor s n w (s.cpu w) with scheduled := l } w =
        { cb.allocateProcessor s n w (s.cpu w) with scheduled := l.erase w, context := r } ∧
      σ.queues s.priority (cb.allocateProcessor s n w (s.cpu w)).heir r
        (fun u => u = w ∨ P u) (fun u => u = n ∨ u ≠ w ∧ S u)

/-- What the filling of the processor of one node relies on: under the condition `pre`
it turns the queues of the policy into `Q`. -/
def Fills (pre : (T → Nat) → R → Prop) (Q : Queues T C R) (n : T) : Prop :=
  ∀ ⦃s P S q⦄, σ.queues s.priority s.heir s.context P S → (∀ u, (s.node u).user = u) →
    ¬P n → ¬S n → P q → ¬S q →
    Assignment (· ∈ I.cpus) s.cpu s.heir (fun u => u = n ∨ S u) →
    σ.highest s.priority s.context P n q → pre s.priority s.context →
    Allocated I s (cb.allocateProcessor s q n (s.cpu n)) q n ∧
    ∃ r, cb.moveFromReadyToScheduled (cb.allocateProcessor s q n (s.cpu n)) q =
        insertScheduledFifo { cb.allocateProcessor s q n (s.cpu n) with context := r } q ∧
      Q s.priority (cb.allocateProcessor s q n (s.cpu n)).heir r
        (fun u => u ≠ q ∧ P u) (fun u => u = q ∨ S u)

/-- What the shared operations rely on. -/
structure Laws : Prop where
  enqueues : ∀ n, Enqueues cb I σ σ.queues n
  fills : ∀ n, Fills cb I σ (σ.vacates · · n) σ.queues n
  extractFromScheduled : ∀ ⦃p h r P S S'⦄, σ.queues p h r P S → (∀ u, S' u → S u) →
    σ.queues p h r P S'
  extractFromReady : ∀ ⦃s P S n⦄, σ.queues s.priority s.heir s.context P S → P n →
    ∃ r, cb.extractFromReady s n = { s with context := r } ∧
      σ.queues s.priority s.heir r (fun u => u ≠ n ∧ P u) S
  doUpdate : ∀ ⦃s P S n p⦄, σ.queues s.priority s.heir s.context P S → ¬P n → ¬S n →
    p ≤ I.maximumPriority →
    ∃ r, cb.doUpdate s n p = { s.nodeUpdatePriority n p with context := r } ∧
      σ.queues (s.nodeUpdatePriority n p).priority s.heir r P S
  getHighestReady : ∀ ⦃s P S i⦄ (n : T), σ.queues s.priority s.heir s.context P S →
    i ∈ I.idles → P i →
    ∃ q, cb.getHighestReady s n = some q ∧ P q ∧ σ.highest s.priority s.context P n q
  stays : ∀ ⦃s : State T C R⦄ ⦃P S n q⦄, σ.queues s.priority s.heir s.context P S →
    Assignment (· ∈ I.cpus) s.cpu s.heir (fun u => u = n ∨ S u) →
    σ.highest s.priority s.context P n q → s.priority n ≤ s.priority q →
    σ.queues s.priority s.heir s.context P (fun u => u = n ∨ S u)
  exchange : ∀ ⦃s P S n q f⦄, cb.InsertsReady f →
    σ.queues s.priority s.heir s.context P S → (∀ u, (s.node u).user = u) →
    ¬P n → ¬S n → P q → ¬S q →
    Assignment (· ∈ I.cpus) s.cpu s.heir (fun u => u = n ∨ S u) →
    σ.highest s.priority s.context P n q → s.priority q ≤ s.priority n →
    Allocated I s (cb.allocateProcessor s q n (s.cpu n)) q n ∧
    ∃ r, cb.moveFromReadyToScheduled (f (cb.allocateProcessor s q n (s.cpu n)) n) q =
        insertScheduledFifo { cb.allocateProcessor s q n (s.cpu n) with context := r } q ∧
      σ.queues s.priority (cb.allocateProcessor s q n (s.cpu n)).heir r
        (fun u => u = n ∨ u ≠ q ∧ P u) (fun u => u = q ∨ S u)

end Laws

/-- The thread state that goes with a node state. -/
def NodeState.toThreadState : NodeState → ThreadState
  | .blocked => .blocked
  | .scheduled => .scheduled
  | .ready => .ready

/-- The fields of a node and of its thread agree; nobody helps or is helped. -/
structure Consistent (I : Instance T C) (n : T) (node : Node T) (threadState : ThreadState)
    (isReady : Bool) : Prop where
  user : node.user = n
  idle : node.idle = none
  state : threadState = node.state.toThreadState
  value_le : node.value ≤ I.maximumPriority
  notBlocked : n ∈ I.idles → node.state ≠ .blocked
  stickyLevel : n ∉ I.idles → node.stickyLevel = if node.state = .blocked then 0 else 1
  isReady : n ∉ I.idles → (isReady = true ↔ node.state ≠ .blocked)

/-- The invariant, with the nodes `out` off all queues and the threads `extra` on a
processor beside the scheduled ones. -/
structure Invariant (I : Instance T C) (Q : Queues T C R) (out extra : T → Prop)
    (s : State T C R) : Prop where
  consistent : ∀ u,
    Consistent I u (s.node u) (s.thread u).state (s.thread u).isReady
  nodup : s.scheduled.Nodup
  mem_iff : ∀ u, u ∈ s.scheduled ↔ (s.node u).state = .scheduled ∧ ¬out u
  sorted : SortedBy s.priority s.scheduled
  queues : Q s.priority s.heir s.context (fun u => (s.node u).state = .ready ∧ ¬out u)
    (· ∈ s.scheduled)
  heirs : Assignment (· ∈ I.cpus) s.cpu s.heir
    fun u => (s.node u).state = .scheduled ∨ extra u

/-- No node. -/
def nobody (_ : T) : Prop := False

/-- An order of insertion into both queues. -/
structure Discipline (cb : Callbacks T C R) (order : Nat → Nat → Bool)
    (insertReady insertScheduled : State T C R → T → State T C R) : Prop where
  le_of_order : ∀ {p q}, order p q = true → p ≤ q
  le_of_not_order : ∀ {p q}, order p q = false → q ≤ p
  insertReady : cb.InsertsReady insertReady
  insertScheduled : InsertsScheduled insertScheduled

section Disciplines

variable (cb : Callbacks T C R)
omit [DecidableEq C]

omit [DecidableEq T] in
theorem insertsScheduled_lifo :
    InsertsScheduled (insertScheduledLifo : State T C R → T → State T C R) :=
  fun _ _ => ⟨_, rfl, insertBefore_perm .., fun h => h.insert_lifo⟩

omit [DecidableEq T] in
theorem insertsScheduled_fifo :
    InsertsScheduled (insertScheduledFifo : State T C R → T → State T C R) :=
  fun _ _ => ⟨_, rfl, insertBefore_perm .., fun h => h.insert_fifo⟩

omit [DecidableEq T] in
/-- The last-in first-out order. -/
theorem discipline_lifo :
    Discipline cb insertPriorityLifoOrder cb.insertReadyLifo insertScheduledLifo where
  le_of_order := by simp [insertPriorityLifoOrder]
  le_of_not_order := by
    intro p q hpq
    have : ¬p ≤ q := by simpa [insertPriorityLifoOrder] using hpq
    omega
  insertReady := .inl rfl
  insertScheduled := insertsScheduled_lifo

omit [DecidableEq T] in
/-- The first-in first-out order. -/
theorem discipline_fifo :
    Discipline cb insertPriorityFifoOrder cb.insertReadyFifo insertScheduledFifo where
  le_of_order := by
    intro p q hpq
    have : p < q := by simpa [insertPriorityFifoOrder] using hpq
    omega
  le_of_not_order := by simp [insertPriorityFifoOrder]
  insertReady := .inr rfl
  insertScheduled := insertsScheduled_fifo

end Disciplines

/-- The states of two nodes and threads are exchanged, before the processor is allocated. -/
def State.exchangeStates (s : State T C R) (n w : T) : State T C R :=
  (((s.threadChangeState n .scheduled).nodeChangeState w .ready).threadChangeState w
    .ready).nodeChangeState n .scheduled

section ExchangeStates

variable (s : State T C R) {n w : T}
omit [DecidableEq C]

theorem State.cpu_exchangeStates : (s.exchangeStates n w).cpu = s.cpu := by
  simp [exchangeStates]

theorem State.priority_exchangeStates : (s.exchangeStates n w).priority = s.priority := by
  simp [exchangeStates]

/-- The node states after the exchange. -/
theorem State.nodeState_exchangeStates (u : T) :
    ((s.exchangeStates n w).node u).state =
      if u = n then .scheduled else if u = w then .ready else (s.node u).state := by
  by_cases hu : u = n
  · subst hu
    simp [exchangeStates]
  · by_cases huw : u = w
    · subst huw
      simp [exchangeStates, hu]
    · simp [exchangeStates, hu, huw]

/-- The owners stay the users of the nodes. -/
theorem State.user_exchangeStates (huser : ∀ u, (s.node u).user = u) (u : T) :
    ((s.exchangeStates n w).node u).user = u := by
  by_cases hu : u = n
  · subst hu
    by_cases huw : u = w
    · subst huw
      simp [exchangeStates, huser]
    · simp [exchangeStates, huser, huw]
  · by_cases huw : u = w
    · subst huw
      simp [exchangeStates, huser, hu]
    · simp [exchangeStates, huser, hu, huw]

variable {s}

/-- Preemption of a scheduled thread by a node that is scheduled. -/
theorem preempt_eq {cb : Callbacks T C R} (huser : ∀ u, (s.node u).user = u) (hne : n ≠ w)
    (hw : (s.thread w).state = .scheduled) :
    preempt cb (s.threadChangeState n .scheduled) n w =
      cb.allocateProcessor (s.exchangeStates n w) n w ((s.exchangeStates n w).cpu w) := by
  have hstate : (((s.threadChangeState n .scheduled).nodeChangeState w .ready).thread w).state =
      .scheduled := by
    simpa [Ne.symm hne] using hw
  have hcpu : (((s.threadChangeState n .scheduled).nodeChangeState w .ready).thread w).cpu =
      (s.exchangeStates n w).cpu w := by
    rw [State.cpu_exchangeStates]
    simp [Ne.symm hne, State.cpu]
  simp only [preempt, allocateProcessor, State.node_threadChangeState, huser, if_pos hstate,
    hcpu]
  rfl

/-- The exchange keeps the agreement of nodes and threads. -/
theorem Consistent.exchangeStates {I : Instance T C} (hne : n ≠ w)
    (hn : (s.node n).state = .ready) (hw : (s.node w).state = .scheduled)
    (h : ∀ u, Consistent I u (s.node u) (s.thread u).state (s.thread u).isReady) (u : T) :
    Consistent I u ((s.exchangeStates n w).node u) ((s.exchangeStates n w).thread u).state
      ((s.exchangeStates n w).thread u).isReady := by
  have hc := h u
  by_cases hu : u = n
  · subst hu
    constructor <;> simp [State.exchangeStates, hne, hc.user, hc.idle, hc.value_le,
      NodeState.toThreadState]
    · intro hi
      simpa [hn] using hc.stickyLevel hi
    · intro hi
      simpa [hn] using hc.isReady hi
  · by_cases huw : u = w
    · subst huw
      constructor <;> simp [State.exchangeStates, hu, hc.user, hc.idle, hc.value_le,
        NodeState.toThreadState]
      · intro hi
        simpa [hw] using hc.stickyLevel hi
      · intro hi
        simpa [hw] using hc.isReady hi
    · simpa [State.exchangeStates, hu, huw] using hc

end ExchangeStates

variable {r : R} {insertScheduled : State T C R → T → State T C R} {s₁ : State T C R}
  {order : Nat → Nat → Bool}

section Facts

variable {cb : Callbacks T C R} {I : Instance T C} {σ : Policy T C R} {Q : Queues T C R}
  {out extra : T → Prop} {s : State T C R} {n w : T}

omit [DecidableEq T] [DecidableEq C] in
/-- The ready and the scheduled nodes may be described otherwise. -/
theorem queues_congr {p : T → Nat} {h : C → T} {P P' S S' : T → Prop}
    (hQ : Q p h r P S) (hP : ∀ u, P' u ↔ P u) (hS : ∀ u, S' u ↔ S u) : Q p h r P' S' := by
  have hP' : P' = P := funext fun u => propext (hP u)
  have hS' : S' = S := funext fun u => propext (hS u)
  rwa [hP', hS']

namespace Invariant

section

omit [DecidableEq T] [DecidableEq C]

/-- The processors of the scheduled nodes, with one node off the chain. -/
theorem heirs_mem (h : Invariant I Q (· = n) nobody s)
    (hn : (s.node n).state ≠ .scheduled) :
    Assignment (· ∈ I.cpus) s.cpu s.heir (· ∈ s.scheduled) := by
  refine h.heirs.congr ?_ fun _ _ => rfl
  intro u
  rw [h.mem_iff]
  by_cases hu : u = n
  · simp [hu, hn, nobody]
  · simp [hu, nobody]

/-- The processors of the scheduled nodes and of the one that left the chain. -/
theorem heirs_out (h : Invariant I Q (· = n) extra s)
    (hn : (s.node n).state = .scheduled ∨ extra n) (hextra : ∀ u, extra u → u = n) :
    Assignment (· ∈ I.cpus) s.cpu s.heir (fun u => u = n ∨ u ∈ s.scheduled) := by
  refine h.heirs.congr ?_ fun _ _ => rfl
  intro u
  rw [h.mem_iff]
  by_cases hu : u = n
  · subst hu
    exact ⟨fun _ => hn, fun _ => .inl rfl⟩
  · have hne : ¬extra u := fun he => hu (hextra u he)
    simp [hu, hne]

theorem not_mem_of_out (h : Invariant I Q (· = n) extra s) : n ∉ s.scheduled :=
  fun hmem => ((h.mem_iff n).mp hmem).2 rfl

section

variable (h : Invariant I Q out extra s)
include h

theorem user (u : T) : (s.node u).user = u :=
  (h.consistent u).user

theorem threadState {x : NodeState}
    (hn : (s.node n).state = x) : (s.thread n).state = x.toThreadState := by
  rw [(h.consistent n).state, hn]

theorem not_mem_of_ready (hw : (s.node w).state = .ready) :
    w ∉ s.scheduled := by
  rw [h.mem_iff, hw]
  simp

/-- A node that is not in the chain joins it, in a state with the same chain. -/
theorem joins (hinsert : InsertsScheduled insertScheduled)
    (hscheduled : s₁.scheduled = s.scheduled) (hpriority : s₁.priority = s.priority)
    (hw : w ∉ s.scheduled) :
    ∃ l, insertScheduled s₁ w = { s₁ with scheduled := l } ∧ l.Nodup ∧
      SortedBy s.priority l ∧ ∀ u, u ∈ l ↔ u = w ∨ u ∈ s.scheduled := by
  obtain ⟨l, hl, hperm, hsorted⟩ := hinsert s₁ w
  rw [hscheduled] at hperm hsorted
  rw [hpriority] at hsorted
  refine ⟨l, hl, hperm.nodup_iff.mpr (List.nodup_cons.mpr ⟨hw, h.nodup⟩), hsorted h.sorted, ?_⟩
  intro u
  rw [hperm.mem_iff, List.mem_cons]

end

end

omit [DecidableEq C] in
/-- A scheduled node leaves the chain. -/
theorem extractFromScheduled (hcb : Laws cb I σ) (h : Invariant I σ.queues nobody nobody s)
    (hn : (s.node n).state = .scheduled) :
    Invariant I σ.queues (· = n) nobody (s.extractFromScheduled n) where
  __ := h
  nodup := h.nodup.erase n
  mem_iff u := by
    change u ∈ s.scheduled.erase n ↔ (s.node u).state = .scheduled ∧ ¬u = n
    rw [h.nodup.mem_erase_iff, h.mem_iff]
    simp only [nobody, not_false_eq_true, and_true]
    exact and_comm
  sorted := h.sorted.erase n
  queues := by
    have hsub : ∀ u, u ∈ s.scheduled.erase n → u ∈ s.scheduled := fun u => List.mem_of_mem_erase
    refine queues_congr (hcb.extractFromScheduled h.queues hsub) ?_ fun _ => Iff.rfl
    intro u
    change (s.node u).state = .ready ∧ ¬u = n ↔ (s.node u).state = .ready ∧ ¬False
    simp only [not_false_eq_true, and_true, and_iff_left_iff_imp]
    rintro hu rfl
    rw [hn] at hu
    cases hu

omit [DecidableEq C] in
/-- A ready node leaves the ready set. -/
theorem extractFromReady (hcb : Laws cb I σ) (h : Invariant I σ.queues nobody nobody s)
    (hn : (s.node n).state = .ready) :
    ∃ r, cb.extractFromReady s n = { s with context := r } ∧
      Invariant I σ.queues (· = n) nobody (cb.extractFromReady s n) := by
  obtain ⟨r, hs, hr⟩ := hcb.extractFromReady h.queues ⟨hn, id⟩
  refine ⟨r, hs, ?_⟩
  rw [hs]
  refine { h with mem_iff := ?_, queues := ?_ }
  · intro u
    rw [h.mem_iff]
    simp only [nobody, not_false_eq_true, and_true, iff_self_and]
    rintro hu rfl
    rw [hn] at hu
    cases hu
  · refine queues_congr hr ?_ fun _ => Iff.rfl
    intro u
    simp only [nobody, not_false_eq_true, and_true]
    exact and_comm

omit [DecidableEq C] in
/-- A node off all queues gets a new priority. -/
theorem doUpdate (hcb : Laws cb I σ) (h : Invariant I σ.queues (· = n) extra s) {p : Nat}
    (hp : p ≤ I.maximumPriority) :
    Invariant I σ.queues (· = n) extra (cb.doUpdate s n p) ∧
      ((cb.doUpdate s n p).node n).state = (s.node n).state := by
  have hne : ∀ u ∈ s.scheduled, u ≠ n := fun u hu => ((h.mem_iff u).mp hu).2
  obtain ⟨r, hs, hr⟩ := hcb.doUpdate h.queues (fun hn => hn.2 rfl) (fun hn => hne n hn rfl) hp
  have hstate : ∀ u, ((s.nodeUpdatePriority n p).node u).state = (s.node u).state := by
    intro u
    by_cases hu : u = n
    · subst hu
      simp [State.nodeUpdatePriority, State.setNode]
    · simp [State.nodeUpdatePriority, State.setNode, hu]
  rw [hs]
  refine ⟨⟨?_, h.nodup, ?_, ?_, ?_, ?_⟩, hstate n⟩
  · intro u
    by_cases hu : u = n
    · subst hu
      have hc := h.consistent u
      constructor <;> simp [State.nodeUpdatePriority, State.setNode, hc.user, hc.idle,
        hc.value_le, hc.state]
      · exact hc.notBlocked
      · exact hc.stickyLevel
      · exact hc.isReady
    · simpa [State.nodeUpdatePriority, State.setNode, hu] using h.consistent u
  · intro u
    change u ∈ s.scheduled ↔ ((s.nodeUpdatePriority n p).node u).state = _ ∧ _
    rw [hstate, h.mem_iff]
  · exact h.sorted.congr fun u hu =>
      (s.priority_nodeUpdatePriority n (hne u hu) p).symm
  · refine queues_congr hr ?_ fun _ => Iff.rfl
    intro u
    rw [hstate]
  · exact h.heirs.congr (fun u => by
      rw [hstate]) fun _ _ => rfl

end Invariant

omit [DecidableEq C] in
/-- The queues after one node took the place of another: the victim is ready. -/
theorem Allocated.invariant {l : List T}
    (h : Allocated I (s.exchangeStates n w) s₁ n w)
    (hconsistent : ∀ u, Consistent I u (s.node u) (s.thread u).state (s.thread u).isReady)
    (hheirs : Assignment (· ∈ I.cpus) s.cpu s.heir
      fun u => (s.node u).state = .scheduled ∨ nobody u)
    (hn : (s.node n).state = .ready) (hw : (s.node w).state = .scheduled) (hnodup : l.Nodup)
    (hmem : ∀ u, u ∈ l ↔ (u = n ∨ u ≠ w ∧ (s.node u).state = .scheduled) ∧ ¬out u)
    (hsorted : SortedBy s.priority l) {P : T → Prop}
    (hP : ∀ u, P u ↔ (u = w ∨ u ≠ n ∧ (s.node u).state = .ready) ∧ ¬out u)
    (hQ : Q s.priority s₁.heir r P (· ∈ l)) :
    Invariant I Q out nobody { s₁ with scheduled := l, context := r } := by
  have hne : n ≠ w := by
    rintro rfl
    rw [hn] at hw
    cases hw
  have hpriority : s₁.priority = s.priority := by
    rw [h.same.priority, State.priority_exchangeStates]
  have hready : ∀ u, (s₁.node u).state = .ready ↔
      u = w ∨ u ≠ n ∧ (s.node u).state = .ready := by
    intro u
    rw [h.same.node, State.nodeState_exchangeStates]
    by_cases hu : u = n
    · subst hu
      simp [hne]
    · by_cases huw : u = w
      · subst huw
        simp [hu]
      · simp [hu, huw]
  have hscheduled : ∀ u, (s₁.node u).state = .scheduled ↔
      u = n ∨ u ≠ w ∧ (s.node u).state = .scheduled := by
    intro u
    rw [h.same.node, State.nodeState_exchangeStates]
    by_cases hu : u = n
    · subst hu
      simp
    · by_cases huw : u = w
      · subst huw
        simp [hu]
      · simp [hu, huw]
  refine ⟨?_, hnodup, ?_, hpriority ▸ hsorted, ?_, ?_⟩
  · intro u
    rw [h.same.node, h.same.state, h.same.isReady]
    exact Consistent.exchangeStates hne hn hw hconsistent u
  · intro u
    rw [hscheduled, hmem]
  · change Q s₁.priority s₁.heir r _ _
    rw [hpriority]
    refine queues_congr hQ ?_ fun _ => Iff.rfl
    intro u
    rw [hready, hP]
  · refine h.heirs (A := fun u => (s.node u).state = .scheduled ∨ nobody u) ?_ (.inl hw) ?_ ?_
    · rw [State.cpu_exchangeStates]
      exact hheirs
    · simp [hn, nobody]
    · intro u
      rw [hscheduled]
      simp [nobody]

namespace Invariant

omit [DecidableEq C] in
/-- A ready node off all queues takes the place of a scheduled node. -/
theorem enqueueToScheduled (hen : Enqueues cb I σ Q n)
    (hinsert : InsertsScheduled insertScheduled) (h : Invariant I Q (· = n) nobody s)
    (hn : (s.node n).state = .ready) (hwmem : w ∈ s.scheduled)
    (hlow : σ.lowest s.priority s.context (· ∈ s.scheduled) n w)
    (hle : s.priority n ≤ s.priority w) :
    ∃ s', enqueueToScheduled cb insertScheduled s n w = some s' ∧
      Invariant I σ.queues nobody nobody s' := by
  have hnmem : n ∉ s.scheduled := h.not_mem_of_out
  have hw := ((h.mem_iff w).mp hwmem).1
  have hne : n ≠ w := by
    rintro rfl
    exact hnmem hwmem
  have hnthread : (s.thread n).state = .ready := h.threadState hn
  have hwthread : (s.thread w).state = .scheduled := h.threadState hw
  have hpriority : (s.exchangeStates n w).priority = s.priority := s.priority_exchangeStates
  have hheirs := h.heirs_mem (by simp [hn])
  have hqueues := h.queues
  rw [← hpriority] at hqueues
  obtain ⟨halloc, hmove⟩ := hen.replace (s := s.exchangeStates n w) (w := w)
    hqueues (s.user_exchangeStates h.user)
    (fun hP => hP.2 rfl) hnmem hwmem (by simp [hw])
    (by rw [s.cpu_exchangeStates]; exact hheirs) (by rw [hpriority]; exact hlow)
    (by rw [hpriority]; exact hle)
  rw [Smp.enqueueToScheduled, State.tryToScheduleNode_of_ready _ _ hnthread, Option.bind_some]
  dsimp only
  rw [preempt_eq h.user hne hwthread]
  generalize cb.allocateProcessor (s.exchangeStates n w) n w ((s.exchangeStates n w).cpu w) = s₁
    at halloc hmove ⊢
  obtain ⟨l, hl, hnodup, hsorted, hjoined⟩ := h.joins hinsert halloc.same.scheduled
    (halloc.same.priority.trans hpriority) hnmem
  have hmem : ∀ u, u ∈ l.erase w ↔ u = n ∨ u ≠ w ∧ u ∈ s.scheduled := by
    intro u
    rw [hnodup.mem_erase_iff, hjoined]
    by_cases hu : u = n
    · subst hu
      simp [hne]
    · simp [hu]
  obtain ⟨r, hmove, hQ⟩ := hmove l
  have hidle : (s₁.node w).idle = none := by
    have hc := Consistent.exchangeStates hne hn hw h.consistent w
    rw [halloc.same.node]
    exact hc.idle
  have hrelease : ∀ (l : List T) (r : R),
      State.releaseIdleThread { s₁ with scheduled := l, context := r } w =
        ({ s₁ with scheduled := l, context := r }, none) :=
    fun _ _ => State.releaseIdleThread_of_none _ _ hidle
  rw [hl, hmove, hrelease]
  refine ⟨_, rfl, halloc.invariant h.consistent h.heirs hn hw (hnodup.erase w) ?_
    (hsorted.erase w) (P := fun u => u = w ∨ (s.node u).state = .ready ∧ ¬u = n)
    ?_ ?_⟩
  · intro u
    rw [hmem, h.mem_iff]
    by_cases hu : u = n
    · simp [hu, nobody]
    · simp [hu, nobody]
  · intro u
    rw [and_comm (b := ¬u = n)]
    simp [nobody]
  · rw [hpriority] at hQ
    exact queues_congr hQ (fun _ => Iff.rfl) hmem

omit [DecidableEq C] in
/-- A ready node off all queues is enqueued. -/
theorem enqueueOrdered (hen : Enqueues cb I σ Q n)
    {insertReady insertScheduled : State T C R → T → State T C R}
    (hd : Discipline cb order insertReady insertScheduled)
    (h : Invariant I Q (· = n) nobody s) (hn : (s.node n).state = .ready) :
    ∃ s' b, enqueueOrdered cb order insertReady insertScheduled s n = some (s', b) ∧
      Invariant I σ.queues nobody nobody s' := by
  have hnmem : n ∉ s.scheduled := h.not_mem_of_out
  obtain ⟨w, hwmem, hlast, hlow⟩ :=
    hen.getLowestScheduled h.queues h.sorted (h.heirs_mem (by simp [hn]))
  rw [Smp.enqueueOrdered, hlast, Option.bind_some]
  by_cases ho : order (s.priority n) (s.priority w) = true
  · rw [if_pos ho]
    obtain ⟨s', hs, hinv⟩ := h.enqueueToScheduled hen hd.insertScheduled hn hwmem hlow
      (hd.le_of_order ho)
    exact ⟨s', false, by rw [hs, Option.map_some], hinv⟩
  · rw [if_neg ho]
    have hwle := hd.le_of_not_order (Bool.eq_false_iff.mpr ho)
    obtain ⟨r, hs, hr⟩ := hen.insertReady hd.insertReady h.queues (fun hP => hP.2 rfl) hnmem
      hlow hwmem hwle
    refine ⟨_, _, rfl, ?_⟩
    rw [hs]
    refine { h with mem_iff := ?_, queues := ?_ }
    · intro u
      change u ∈ s.scheduled ↔ (s.node u).state = .scheduled ∧ ¬False
      rw [h.mem_iff]
      simp only [not_false_eq_true, and_true, and_iff_left_iff_imp]
      rintro hu rfl
      rw [hn] at hu
      cases hu
    · refine queues_congr hr ?_ fun _ => Iff.rfl
      intro u
      change (s.node u).state = .ready ∧ ¬False ↔ u = n ∨ (s.node u).state = .ready ∧ ¬u = n
      by_cases hu : u = n
      · simp [hu, hn]
      · simp [hu]

omit [DecidableEq T] [DecidableEq C] in
/-- While a thread that is not idle has a processor, an idle thread is ready. -/
theorem exists_ready_idle (h : Invariant I Q out extra s)
    (hw : (s.node w).state = .scheduled ∨ extra w) (hextra : ∀ u, extra u → u = w)
    (hidle : w ∉ I.idles) : ∃ i ∈ I.idles, (s.node i).state = .ready := by
  by_contra hcon
  have hall : ∀ u ∈ w :: I.idles, (s.node u).state = .scheduled ∨ extra u := by
    intro u hu
    rcases List.mem_cons.mp hu with rfl | hu
    · exact hw
    · have hnb := (h.consistent u).notBlocked hu
      have hnr : (s.node u).state ≠ .ready := fun hr => hcon ⟨u, hu, hr⟩
      cases hs : (s.node u).state with
      | blocked => exact absurd hs hnb
      | scheduled => exact .inl rfl
      | ready => exact absurd hs hnr
  have hlen := h.heirs.length_le (List.nodup_cons.mpr ⟨hidle, I.idles_nodup⟩) hall
  rw [List.length_cons, I.length_eq] at hlen
  omega

section

variable (hcb : Laws cb I σ)
include hcb

omit [DecidableEq C] in
/-- The highest ready node, while a thread that is not idle has a processor. -/
theorem exists_highest (h : Invariant I σ.queues (· = n) extra s)
    (hn : (s.node n).state = .scheduled ∨ extra n) (hextra : ∀ u, extra u → u = n)
    (hidle : n ∉ I.idles) :
    ∃ q, cb.getHighestReady s n = some q ∧ (s.node q).state = .ready ∧ q ≠ n ∧
      σ.highest s.priority s.context (fun u => (s.node u).state = .ready ∧ ¬u = n) n q := by
  obtain ⟨i, hi, hready⟩ := h.exists_ready_idle hn hextra hidle
  have hin : i ≠ n := by
    rintro rfl
    exact hidle hi
  obtain ⟨q, hq, hqP, hhigh⟩ := hcb.getHighestReady n h.queues hi ⟨hready, hin⟩
  exact ⟨q, hq, hqP.1, hqP.2, hhigh⟩

/-- A node taken off the scheduled chain goes back to it. -/
theorem staysScheduled
    (hinsert : InsertsScheduled insertScheduled) (h : Invariant I σ.queues (· = n) nobody s)
    (hn : (s.node n).state = .scheduled)
    (hhigh : σ.highest s.priority s.context (fun u => (s.node u).state = .ready ∧ ¬u = n) n w)
    (hle : s.priority n ≤ s.priority w) :
    ∃ s', staysScheduled insertScheduled s n = some s' ∧
      Invariant I σ.queues nobody nobody s' := by
  obtain ⟨l, hl, hnodup, hsorted, hmem⟩ := h.joins hinsert rfl rfl h.not_mem_of_out
  have hQ := hcb.stays h.queues (h.heirs_out (.inl hn) fun _ => False.elim) hhigh hle
  rw [Smp.staysScheduled, hl]
  dsimp only
  rw [if_neg (by simp [(h.consistent n).idle])]
  refine ⟨_, rfl, h.consistent, hnodup, ?_, hsorted, queues_congr hQ ?_ hmem, h.heirs⟩
  · intro u
    change u ∈ l ↔ (s.node u).state = .scheduled ∧ ¬False
    rw [hmem, h.mem_iff]
    by_cases hu : u = n
    · simp [hu, hn]
    · simp [hu]
  · intro u
    change (s.node u).state = .ready ∧ ¬False ↔ (s.node u).state = .ready ∧ ¬u = n
    by_cases hu : u = n
    · simp [hu, hn]
    · simp [hu]

/-- A node taken off the scheduled chain is enqueued again. -/
theorem enqueueScheduledOrdered {insertReady insertScheduled : State T C R → T → State T C R}
    (hd : Discipline cb order insertReady insertScheduled)
    (h : Invariant I σ.queues (· = n) nobody s) (hn : (s.node n).state = .scheduled)
    (hidle : n ∉ I.idles) (fuel : Nat) :
    ∃ s' b, enqueueScheduledOrdered cb order insertReady insertScheduled (fuel + 1) s n =
        some (s', b) ∧ Invariant I σ.queues nobody nobody s' := by
  obtain ⟨q, hq, hqready, hqn, hhigh⟩ :=
    h.exists_highest hcb (.inl hn) (fun _ => False.elim) hidle
  have hsticky : 0 < (s.node n).stickyLevel := by
    rw [(h.consistent n).stickyLevel hidle, hn]
    decide
  rw [Smp.enqueueScheduledOrdered, hq, Option.bind_some]
  by_cases ho : order (s.priority n) (s.priority q) = true
  · rw [if_pos ⟨hsticky, ho⟩]
    obtain ⟨s', hs, hinv⟩ :=
      h.staysScheduled hcb hd.insertScheduled hn hhigh (hd.le_of_order ho)
    exact ⟨s', false, by rw [hs, Option.map_some], hinv⟩
  · rw [if_neg (fun hcon => ho hcon.2)]
    have hqle := hd.le_of_not_order (Bool.eq_false_iff.mpr ho)
    have hqthread : (s.thread q).state = .ready := h.threadState hqready
    have hnthread : (s.thread n).state = .scheduled := h.threadState hn
    have hnmem : n ∉ s.scheduled := h.not_mem_of_out
    have hqmem : q ∉ s.scheduled := h.not_mem_of_ready hqready
    have hpriority : (s.exchangeStates q n).priority = s.priority := s.priority_exchangeStates
    have hqueues := h.queues
    rw [← hpriority] at hqueues
    obtain ⟨halloc, r, hmove, hQ⟩ := hcb.exchange (s := s.exchangeStates q n) (n := n) (q := q)
      hd.insertReady hqueues (s.user_exchangeStates h.user)
      (fun hP => hP.2 rfl) hnmem ⟨hqready, hqn⟩ hqmem
      (by rw [s.cpu_exchangeStates]; exact h.heirs_out (.inl hn) fun _ => False.elim)
      (by rw [hpriority]; exact hhigh) (by rw [hpriority]; exact hqle)
    rw [State.tryToScheduleNode_of_ready _ _ hqthread, Option.bind_some]
    dsimp only
    rw [preempt_eq h.user hqn hnthread, hmove]
    generalize cb.allocateProcessor (s.exchangeStates q n) q n ((s.exchangeStates q n).cpu n) =
      s₁ at halloc hQ ⊢
    obtain ⟨l, hl, hnodup, hsorted, hmem⟩ := h.joins insertsScheduled_fifo
      (show ({ s₁ with context := r } : State T C R).scheduled = s.scheduled from
        halloc.same.scheduled) (halloc.same.priority.trans hpriority) hqmem
    have hrelease : ∀ (l : List T) (r : R),
        State.releaseIdleThread { s₁ with scheduled := l, context := r } n =
          ({ s₁ with scheduled := l, context := r }, none) := by
      intro l r
      refine State.releaseIdleThread_of_none _ _ ?_
      change (s₁.node n).idle = none
      rw [halloc.same.node]
      exact (Consistent.exchangeStates hqn hqready hn h.consistent n).idle
    rw [hl, hrelease]
    refine ⟨_, _, rfl, halloc.invariant h.consistent h.heirs hqready hn hnodup ?_ hsorted
      (P := fun u => u = n ∨ u ≠ q ∧ (s.node u).state = .ready ∧ ¬u = n) ?_ ?_⟩
    · intro u
      rw [hmem, h.mem_iff, and_comm (b := ¬u = n)]
      simp [nobody]
    · intro u
      by_cases hu : u = n
      · simp [hu, nobody]
      · simp [hu, nobody]
    · rw [hpriority] at hQ
      exact queues_congr hQ (fun _ => Iff.rfl) hmem

omit [DecidableEq C] in
/-- The highest ready node takes the processor of a thread that blocks. -/
theorem scheduleHighestReady (h : Invariant I σ.queues (· = n) (· = n) s)
    (hn : (s.node n).state = .blocked) (hidle : n ∉ I.idles)
    (hvacates : σ.vacates s.priority s.context n) (fuel : Nat) :
    ∃ s', scheduleHighestReady cb (fuel + 1) s n (s.cpu n) = some s' ∧
      Invariant I σ.queues nobody nobody s' := by
  obtain ⟨q, hq, hqready, hqn, hhigh⟩ :=
    h.exists_highest hcb (.inr rfl) (fun _ => id) hidle
  have hqthread : (s.thread q).state = .ready := h.threadState hqready
  have hnmem : n ∉ s.scheduled := h.not_mem_of_out
  have hqmem : q ∉ s.scheduled := h.not_mem_of_ready hqready
  let s₀ := (s.threadChangeState q .scheduled).nodeChangeState q .scheduled
  have hpriority : s₀.priority = s.priority := by simp [s₀]
  have hcpu : s₀.cpu = s.cpu := by simp [s₀]
  have huser : ∀ u, (s₀.node u).user = u := by
    intro u
    by_cases hu : u = q
    · subst hu
      simpa [s₀] using h.user u
    · simpa [s₀, hu] using h.user u
  have hstate : ∀ u, (s₀.node u).state = if u = q then .scheduled else (s.node u).state := by
    intro u
    by_cases hu : u = q
    · subst hu
      simp [s₀]
    · simp [s₀, hu]
  have hqueues := h.queues
  rw [← hpriority] at hqueues
  obtain ⟨halloc, r, hmove, hQ⟩ := hcb.fills n (s := s₀) (q := q)
    hqueues huser (fun hP => hP.2 rfl) hnmem ⟨hqready, hqn⟩ hqmem
    (by rw [hcpu]; exact h.heirs_out (.inr rfl) fun _ => id) (by rw [hpriority]; exact hhigh)
    (by rw [hpriority]; exact hvacates)
  rw [Smp.scheduleHighestReady, hq, Option.bind_some,
    State.tryToScheduleNode_of_ready _ _ hqthread, Option.bind_some]
  dsimp only
  rw [if_pos rfl, allocateProcessor, ← hcpu]
  change ∃ s', some (cb.moveFromReadyToScheduled (cb.allocateProcessor s₀ q n (s₀.cpu n)) q) =
    some s' ∧ _
  rw [hmove]
  generalize cb.allocateProcessor s₀ q n (s₀.cpu n) = s₁ at halloc hQ ⊢
  have hpriority₁ : s₁.priority = s.priority := halloc.same.priority.trans hpriority
  obtain ⟨l, hl, hnodup, hsorted, hmem⟩ := h.joins insertsScheduled_fifo
    (show ({ s₁ with context := r } : State T C R).scheduled = s.scheduled from
      halloc.same.scheduled) hpriority₁ hqmem
  rw [hl]
  refine ⟨_, rfl, ?_, hnodup, ?_, ?_, ?_, ?_⟩
  · intro u
    change Consistent I u (s₁.node u) (s₁.thread u).state (s₁.thread u).isReady
    rw [halloc.same.node, halloc.same.state, halloc.same.isReady]
    by_cases hu : u = q
    · subst hu
      have hc := h.consistent u
      constructor <;> simp [s₀, hc.user, hc.idle, hc.value_le, NodeState.toThreadState]
      · intro hi
        simpa [hqready] using hc.stickyLevel hi
      · intro hi
        simpa [hqready] using hc.isReady hi
    · simpa [s₀, hu] using h.consistent u
  · intro u
    change u ∈ l ↔ (s₁.node u).state = .scheduled ∧ ¬False
    rw [hmem, h.mem_iff, halloc.same.node, hstate]
    by_cases hu : u = q
    · simp [hu]
    · by_cases hun : u = n
      · subst hun
        simp [hu, hn]
      · simp [hu, hun]
  · exact hpriority₁ ▸ hsorted
  · change σ.queues s₁.priority s₁.heir r _ _
    rw [hpriority₁]
    rw [hpriority] at hQ
    refine queues_congr hQ ?_ hmem
    intro u
    change (s₁.node u).state = .ready ∧ ¬False ↔ u ≠ q ∧ (s.node u).state = .ready ∧ ¬u = n
    rw [halloc.same.node, hstate]
    by_cases hu : u = q
    · simp [hu]
    · by_cases hun : u = n
      · subst hun
        simp [hu, hn]
      · simp [hu, hun]
  · refine halloc.heirs (A := fun u => (s.node u).state = .scheduled ∨ u = n) ?_ (.inr rfl) ?_ ?_
    · rw [hcpu]
      exact h.heirs
    · simp [hqready, hqn]
    · intro u
      change (s₁.node u).state = .scheduled ∨ nobody u ↔ _
      rw [halloc.same.node, hstate]
      by_cases hu : u = q
      · simp [hu]
      · by_cases hun : u = n
        · subst hun
          simp [hu, hn, nobody]
        · simp [hu, hun, nobody]

omit [DecidableEq C] in
/-- The highest ready node takes the processor of a node that becomes ready and stays off
the queues. -/
theorem preemptAndScheduleHighestReady {pre : (T → Nat) → R → Prop}
    (hfills : Fills cb I σ pre Q n) (h : Invariant I σ.queues (· = n) nobody s)
    (hn : (s.node n).state = .scheduled) (hidle : n ∉ I.idles)
    (hpre : pre s.priority s.context) (fuel : Nat) :
    ∃ s', preemptAndScheduleHighestReady cb (fuel + 1) s n = some s' ∧
      Invariant I Q (· = n) nobody s' ∧ (s'.node n).state = .ready := by
  obtain ⟨q, hq, hqready, hqn, hhigh⟩ :=
    h.exists_highest hcb (.inl hn) (fun _ => False.elim) hidle
  have hqthread : (s.thread q).state = .ready := h.threadState hqready
  have hnthread : (s.thread n).state = .scheduled := h.threadState hn
  have hnmem : n ∉ s.scheduled := h.not_mem_of_out
  have hqmem : q ∉ s.scheduled := h.not_mem_of_ready hqready
  have hpriority : (s.exchangeStates q n).priority = s.priority := s.priority_exchangeStates
  have hqueues := h.queues
  rw [← hpriority] at hqueues
  obtain ⟨halloc, r, hmove, hQ⟩ := hfills (s := s.exchangeStates q n) (q := q)
    hqueues (s.user_exchangeStates h.user) (fun hP => hP.2 rfl) hnmem ⟨hqready, hqn⟩ hqmem
    (by rw [s.cpu_exchangeStates]; exact h.heirs_out (.inl hn) fun _ => False.elim)
    (by rw [hpriority]; exact hhigh) (by rw [hpriority]; exact hpre)
  rw [Smp.preemptAndScheduleHighestReady, hq, Option.bind_some,
    State.tryToScheduleNode_of_ready _ _ hqthread, Option.bind_some]
  dsimp only
  rw [if_pos rfl, preempt_eq h.user hqn hnthread, hmove]
  generalize cb.allocateProcessor (s.exchangeStates q n) q n ((s.exchangeStates q n).cpu n) =
    s₁ at halloc hQ ⊢
  obtain ⟨l, hl, hnodup, hsorted, hmem⟩ := h.joins insertsScheduled_fifo
    (show ({ s₁ with context := r } : State T C R).scheduled = s.scheduled from
      halloc.same.scheduled) (halloc.same.priority.trans hpriority) hqmem
  rw [hl]
  refine ⟨_, rfl, halloc.invariant h.consistent h.heirs hqready hn hnodup ?_ hsorted
    (P := fun u => u ≠ q ∧ (s.node u).state = .ready ∧ ¬u = n) ?_ ?_, ?_⟩
  · intro u
    rw [hmem, h.mem_iff]
    by_cases hu : u = q
    · simp [hu, hqn]
    · by_cases hun : u = n
      · simp [hun, Ne.symm hqn]
      · simp [hu, hun]
  · intro u
    by_cases hun : u = n
    · simp [hun]
    · simp [hun]
  · rw [hpriority] at hQ
    exact queues_congr hQ (fun _ => Iff.rfl) hmem
  · change (s₁.node n).state = .ready
    rw [halloc.same.node, State.nodeState_exchangeStates]
    simp [Ne.symm hqn]

end

end Invariant

end Facts

end Rtems.Scheduler.Smp
