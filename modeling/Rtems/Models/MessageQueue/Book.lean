import Rtems.Models.MessageQueue.State
import Mathlib.Data.Set.Card

/-!
# A bounded priority queue with waiters

The abstract queue keeps a book of the accepted submissions. Each one has its message and
one fate: its sender waits with it, it is pending, it was delivered to a thread, its
sender gave up, or it was flushed. A receive delivers the pending message that precedes
all others. There are no buffers, and a waiting thread is a sender if a submission says
so.
-/

namespace Rtems.MessageQueue.Book

open Function

variable {T : Type}

/-- What became of a submission. -/
inductive Fate (T : Type)
  | waiting (t : T)
  /-- The turn tells in which order the messages became pending. -/
  | pending (turn : Nat)
  | delivered (t : T)
  | withdrawn
  | flushed
  deriving DecidableEq

/-- The book with the waiting threads. -/
structure State (ops : Operations T) where
  capacity : Nat
  maximumMessageSize : Nat
  /-- The number of accepted submissions. -/
  count : Nat
  message : Nat → Message
  fate : Nat → Option (Fate T)
  turn : Nat
  waitQueue : ops.Queue
  history : List (Return T Nat)

variable {ops : Operations T}

/-- Nothing was submitted yet. -/
def initialized (ops : Operations T) (capacity maximumMessageSize : Nat) : State ops where
  capacity
  maximumMessageSize
  count := 0
  message _ := ⟨[], sendRequest⟩
  fate _ := none
  turn := 0
  waitQueue := ops.empty
  history := []

/-- The pending submissions. -/
def State.pending (a : State ops) : Set Nat := { n | ∃ turn, a.fate n = some (.pending turn) }

/-- The thread waits to send. -/
def State.Sends (a : State ops) (t : T) : Prop := ∃ n, a.fate n = some (.waiting t)

/-- The thread waits to receive. -/
def State.Receives (a : State ops) (t : T) : Prop :=
  ops.waits a.waitQueue t = true ∧ ¬ a.Sends t

/-- A pending message precedes another by priority. Among equal priorities it is the
first one, and among urgent messages the last one. -/
def State.Precedes (a : State ops) (n m : Nat) : Prop :=
  (a.message n).priority.toInt < (a.message m).priority.toInt ∨
    (a.message n).priority = (a.message m).priority ∧
      ∃ i j, a.fate n = some (.pending i) ∧ a.fate m = some (.pending j) ∧
        if (a.message n).priority = urgentRequest then j < i else i < j

/-- The pending message that is next. -/
def State.Next (a : State ops) (n : Nat) : Prop :=
  n ∈ a.pending ∧ ∀ m ∈ a.pending, m ≠ n → a.Precedes n m

/-- Accept a submission. -/
def State.accept (a : State ops) (message : Message) (fate : Fate T) : State ops :=
  { a with
    count := a.count + 1
    message := Function.update a.message a.count message
    fate := Function.update a.fate a.count (some fate) }

variable {n : Nat}

section

variable (a : State ops) (message : Message) (fate : Fate T)
include a message fate

theorem State.accept_fate_of_ne (hn : n ≠ a.count) : (a.accept message fate).fate n = a.fate n :=
  update_of_ne hn _ _

@[simp] theorem State.accept_fate_self : (a.accept message fate).fate a.count = some fate :=
  update_self _ _ _

@[simp] theorem State.accept_message_self : (a.accept message fate).message a.count = message :=
  update_self _ _ _

end

/-- Give a submission its next fate. -/
def State.assign (a : State ops) (n : Nat) (fate : Fate T) : State ops :=
  { a with fate := Function.update a.fate n (some fate) }

@[simp] theorem State.assign_message (a : State ops) (n : Nat) (fate : Fate T) :
    (a.assign n fate).message = a.message :=
  rfl

theorem State.assign_fate_of_ne (a : State ops) {n m : Nat} (fate : Fate T) (hm : m ≠ n) :
    (a.assign n fate).fate m = a.fate m :=
  update_of_ne hm _ _

@[simp] theorem State.assign_fate_self (a : State ops) (n : Nat) (fate : Fate T) :
    (a.assign n fate).fate n = some fate :=
  update_self _ _ _

theorem State.accept_assign (a : State ops) (message : Message) (old fate : Fate T) :
    (a.accept message old).assign a.count fate = a.accept message fate := by
  simp [State.accept, State.assign]

/-- The next turn. -/
def State.advance (a : State ops) : State ops := { a with turn := a.turn + 1 }

/-- A thread starts to wait. -/
def State.enqueue (a : State ops) (t : T) : State ops :=
  { a with waitQueue := ops.enqueue a.waitQueue t }

/-- A thread does not wait any more. -/
def State.extract (a : State ops) (t : T) : State ops :=
  { a with waitQueue := ops.extract a.waitQueue t }

theorem State.assign_extract_assign (a : State ops) (t : T) (n : Nat) (old : Fate T) :
    (((a.assign n old).extract t).assign n (.pending ((a.assign n old).extract t).turn)).advance =
      (a.assign n (.pending a.turn)).advance.extract t := by
  simp [State.assign, State.extract, State.advance]

/-- A call returns. -/
def State.returns (a : State ops) (t : T) (status : Status) (received : Option Nat) :
    State ops :=
  { a with history := ⟨t, status, received⟩ :: a.history }

/-- The steps of the abstract queue. -/
inductive Step : State ops → Op ops → State ops → Prop
  | tooLarge {a t m wait isr} : a.maximumMessageSize < m.contents.length →
      Step a (.submit t m wait isr) (a.returns t .messageInvalidSize none)
  | handOver {a t u m wait isr} : m.contents.length ≤ a.maximumMessageSize →
      ops.first a.waitQueue = some u → a.Receives u →
      Step a (.submit t m wait isr)
        ((((a.accept m (.delivered u)).extract u).returns u .successful (some a.count)).returns t
          .successful none)
  | keep {a t m wait isr} : m.contents.length ≤ a.maximumMessageSize →
      (∀ u, ¬ a.Receives u) → a.pending.ncard < a.capacity →
      Step a (.submit t m wait isr)
        ((a.accept m (.pending a.turn)).advance.returns t .successful none)
  | full {a t m isr} : m.contents.length ≤ a.maximumMessageSize →
      (∀ u, ¬ a.Receives u) → a.pending.ncard = a.capacity →
      Step a (.submit t m false isr) (a.returns t .tooMany none)
  | fullInIsr {a t m} : m.contents.length ≤ a.maximumMessageSize →
      (∀ u, ¬ a.Receives u) → a.pending.ncard = a.capacity →
      Step a (.submit t m true true) (a.returns t .messageQueueWaitInIsr none)
  | waitToSend {a t m} : m.contents.length ≤ a.maximumMessageSize →
      (∀ u, ¬ a.Receives u) → a.pending.ncard = a.capacity →
      Step a (.submit t m true false) ((a.accept m (.waiting t)).enqueue t)
  | deliver {a t n buffer wait} : a.Next n → ops.first a.waitQueue = none →
      Step a (.seize t buffer wait) ((a.assign n (.delivered t)).returns t .successful (some n))
  | deliverAndRefill {a t u n k buffer wait} : a.Next n →
      ops.first a.waitQueue = some u → a.fate k = some (.waiting u) →
      Step a (.seize t buffer wait)
        (((((a.assign n (.delivered t)).assign k (.pending a.turn)).advance.extract u).returns u
          .successful none).returns t .successful (some n))
  | nothing {a t buffer} : a.pending = ∅ →
      Step a (.seize t buffer false) (a.returns t .unsatisfied none)
  | waitToReceive {a t buffer} : a.pending = ∅ → Step a (.seize t buffer true) (a.enqueue t)
  | giveUpSend {a t n} : a.fate n = some (.waiting t) →
      Step a (.timeout t) (((a.assign n .withdrawn).extract t).returns t .timeout none)
  | giveUpReceive {a t} : a.Receives t →
      Step a (.timeout t) ((a.extract t).returns t .timeout none)
  | flush {a a'} : (∀ t, ¬ a.Sends t) → a' = { a with
        fate := fun n => match a.fate n with
          | some (.pending _) => some .flushed
          | fate => fate } →
      Step a .flush a'
  | reorder {a waitQueue} :
      (∀ t, ops.waits waitQueue t = ops.waits a.waitQueue t) →
      Step a (.reorder waitQueue) { a with waitQueue }
  | setNotify {a handler} : Step a (.setNotify handler) a

/-- The book and the history agree: each accepted submission is delivered once at most. -/
structure Accounted (a : State ops) : Prop where
  accepted : ∀ n, a.fate n ≠ none ↔ n < a.count
  delivered : ∀ n t, a.fate n = some (.delivered t) ↔ ⟨t, .successful, some n⟩ ∈ a.history
  successful : ∀ r ∈ a.history, r.received ≠ none → r.status = .successful
  once : (a.history.filterMap Return.received).Nodup

section Accounted

variable {a : State ops}

section

variable (h : Accounted a)
include h

theorem Accounted.fate_of_received
    (hn : n ∈ a.history.filterMap Return.received) : ∃ t, a.fate n = some (.delivered t) := by
  obtain ⟨⟨t, status, received⟩, hr, hreceived⟩ := List.mem_filterMap.mp hn
  obtain rfl : received = some n := hreceived
  obtain rfl : status = .successful := h.successful _ hr (by simp)
  exact ⟨t, (h.delivered n t).mpr hr⟩

/-- Only the book and the history matter. -/
theorem Accounted.congr {a' : State ops} (hcount : a'.count = a.count)
    (hfate : a'.fate = a.fate) (hhistory : a'.history = a.history) : Accounted a' := by
  refine ⟨?_, ?_, ?_, ?_⟩
  · rw [hfate, hcount]
    exact h.accepted
  · rw [hfate, hhistory]
    exact h.delivered
  · rw [hhistory]
    exact h.successful
  · rw [hhistory]
    exact h.once

/-- A call returns without a message. -/
theorem Accounted.returns_none (t : T) (status : Status) :
    Accounted (a.returns t status none) where
  accepted := h.accepted
  delivered n u := by
    simp only [State.returns, List.mem_cons, Return.mk.injEq, reduceCtorEq, and_false,
      false_or]
    exact h.delivered n u
  successful := List.forall_mem_cons.mpr ⟨by simp, h.successful⟩
  once := by simpa [State.returns] using h.once

/-- Fates other than the delivery may change. -/
theorem Accounted.fates {fate : Nat → Option (Fate T)}
    (hnone : ∀ n, fate n = none ↔ a.fate n = none)
    (hdelivered : ∀ n t, fate n = some (.delivered t) ↔ a.fate n = some (.delivered t)) :
    Accounted { a with fate } where
  accepted n := by
    rw [← h.accepted n]
    exact (hnone n).not
  delivered n t := (hdelivered n t).trans (h.delivered n t)
  __ := h

/-- A submission that was not delivered gets another fate. -/
theorem Accounted.assign {old fate : Fate T}
    (hn : a.fate n = some old) (hold : ∀ t, old ≠ .delivered t)
    (hfate : ∀ t, fate ≠ .delivered t) : Accounted (a.assign n fate) := by
  refine h.fates (fun m => ?_) (fun m t => ?_)
  all_goals
    by_cases hm : m = n
    · subst hm
      simp [hn, hold, hfate]
    · rw [update_of_ne hm]

/-- A submission is accepted and not delivered at once. -/
theorem Accounted.accept (message : Message) {fate : Fate T}
    (hfate : ∀ t, fate ≠ .delivered t) : Accounted (a.accept message fate) where
  accepted n := by
    have hn := h.accepted n
    by_cases hcount : n = a.count
    · subst hcount
      simp [State.accept]
    · simp only [State.accept, update_of_ne hcount, hn]
      omega
  delivered n t := by
    have hn := h.delivered n t
    by_cases hcount : n = a.count
    · subst hcount
      have hnone : a.fate a.count = none := by simpa using (h.accepted a.count).not
      simp only [State.accept, update_self, Option.some_inj, hfate, false_iff]
      simpa [hnone] using hn
    · simpa only [State.accept, update_of_ne hcount] using hn
  __ := h

/-- A submission that was not delivered is received. -/
theorem Accounted.deliver {old : Fate T} (t : T)
    (hn : a.fate n = some old) (hold : ∀ u, old ≠ .delivered u) :
    Accounted ((a.assign n (.delivered t)).returns t .successful (some n)) where
  accepted m := by
    have hm := h.accepted m
    by_cases hmn : m = n
    · subst hmn
      simpa [State.assign, State.returns, hn] using hm
    · simpa only [State.assign, State.returns, update_of_ne hmn] using hm
  delivered m u := by
    by_cases hmn : m = n
    · subst hmn
      have hu := h.delivered m u
      simp only [hn, Option.some_inj, hold, false_iff] at hu
      simp [State.assign, State.returns, hu, eq_comm]
    · simpa [State.assign, State.returns, hmn] using h.delivered m u
  successful := List.forall_mem_cons.mpr ⟨by simp, h.successful⟩
  once := by
    have hnot : n ∉ a.history.filterMap Return.received := by
      intro hmem
      obtain ⟨u, hu⟩ := h.fate_of_received hmem
      exact hold u (Option.some_inj.mp (hn.symm.trans hu))
    simpa [State.assign, State.returns] using And.intro (by simpa using hnot) h.once

end

end Accounted

/-- Every step keeps the book and the history in agreement. -/
theorem Accounted.step {a a' : State ops} {op : Op ops} (h : Accounted a)
    (hstep : Step a op a') : Accounted a' := by
  cases hstep with
  | tooLarge _ | full _ _ _ | fullInIsr _ _ _ | nothing _ => exact h.returns_none _ _
  | @handOver t u m _ _ _ _ _ =>
    have haccepted : Accounted (a.accept m .withdrawn) := h.accept m (by simp)
    have hfate : (a.accept m .withdrawn).fate a.count = some .withdrawn := by
      simp [State.accept]
    refine Accounted.returns_none ?_ _ _
    refine (haccepted.deliver u hfate (by simp)).congr rfl ?_ rfl
    simp [State.accept, State.assign, State.returns, State.extract]
  | @keep _ m _ _ _ _ _ =>
    have haccepted : Accounted (a.accept m (.pending a.turn)) := h.accept m (by simp)
    refine Accounted.returns_none ?_ _ _
    exact haccepted.congr rfl rfl rfl
  | @waitToSend t m _ _ _ =>
    have haccepted : Accounted (a.accept m (.waiting t)) := h.accept m (by simp)
    exact haccepted.congr rfl rfl rfl
  | deliver hnext _ =>
    obtain ⟨⟨turn, hturn⟩, -⟩ := hnext
    exact h.deliver _ hturn (by simp)
  | @deliverAndRefill t u n k _ _ hnext _ hk =>
    obtain ⟨⟨turn, hturn⟩, -⟩ := hnext
    have hne : n ≠ k := by
      rintro rfl
      simp [hturn] at hk
    have hassigned : Accounted (a.assign k (.pending a.turn)) :=
      h.assign hk (by simp) (by simp)
    have hn : ((a.assign k (.pending a.turn)).returns u .successful none).fate n =
        some (.pending turn) := by
      simp [State.assign, State.returns, hne, hturn]
    refine ((hassigned.returns_none u .successful).deliver t hn (by simp)).congr rfl ?_ rfl
    exact (update_comm hne.symm _ _ _).symm
  | waitToReceive _ => exact h.congr rfl rfl rfl
  | giveUpSend hn =>
    have hassigned : Accounted (a.assign _ .withdrawn) := h.assign hn (by simp) (by simp)
    refine Accounted.returns_none ?_ _ _
    exact hassigned.congr rfl rfl rfl
  | giveUpReceive _ =>
    refine Accounted.returns_none ?_ _ _
    exact h.congr rfl rfl rfl
  | flush _ heq =>
    subst heq
    refine h.fates (fun n => ?_) (fun n t => ?_)
    all_goals split <;> simp_all
  | reorder _ => exact h.congr rfl rfl rfl
  | setNotify => exact h

end Rtems.MessageQueue.Book
