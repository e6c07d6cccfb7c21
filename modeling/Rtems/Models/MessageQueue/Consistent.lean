import Rtems.Core.SearchTree
import Rtems.Models.MessageQueue.State

/-!
# Buffers and waiting threads

Every buffer is on one of the two chains, a receiver waits only while nothing is pending
and a sender only while all buffers are. As there is a buffer, the thread queue never
holds both kinds, and the first waiting thread is of the kind the code takes it for.
-/

namespace Rtems.MessageQueue

open SearchTree

variable {T B : Type} [DecidableEq T] [DecidableEq B] {ops : Operations T}

/-- The chains, the counters and the waiting threads agree. -/
structure Consistent (s : System ops B) : Prop where
  positive : 0 < s.state.maximumPendingMessages
  nodup : (s.state.pendingMessages ++ s.state.inactiveMessages).Nodup
  buffers : s.state.pendingMessages.length + s.state.inactiveMessages.length =
    s.state.maximumPendingMessages
  number : s.state.numberOfPendingMessages = s.state.pendingMessages.length
  receivers : ∀ t, ops.waits s.state.waitQueue t = true → s.sending t = false →
    s.state.pendingMessages = []
  senders : ∀ t, ops.waits s.state.waitQueue t = true → s.sending t = true →
    s.state.inactiveMessages = []

omit [DecidableEq T] [DecidableEq B] in
theorem consistent_initialized {buffers : List B} (hbuffers : buffers ≠ [])
    (hnodup : buffers.Nodup) (maximumMessageSize : Nat) (message : B → Buffer) (wait : T → Wait)
    (sending : T → Bool) :
    Consistent ⟨initialized ops buffers maximumMessageSize message wait, sending, []⟩ where
  positive := List.length_pos_of_ne_nil hbuffers
  nodup := by simpa [initialized] using hnodup
  buffers := by simp [initialized]
  number := rfl
  receivers t h := by simp [initialized, ops.waits_empty] at h
  senders t h := by simp [initialized, ops.waits_empty] at h

variable {s : System ops B}

omit [DecidableEq T] [DecidableEq B] in
/-- A thread that waits while a message is pending waits to send. -/
theorem Consistent.sending_of_pending (h : Consistent s) {t : T}
    (ht : ops.waits s.state.waitQueue t = true) (hpending : s.state.pendingMessages ≠ []) :
    s.sending t = true := by
  by_contra hsending
  exact hpending (h.receivers t ht (by simpa using hsending))

omit [DecidableEq T] [DecidableEq B] in
/-- A thread that waits while nothing is pending waits to receive. -/
theorem Consistent.receiving_of_nil (h : Consistent s) {t : T}
    (ht : ops.waits s.state.waitQueue t = true) (hpending : s.state.pendingMessages = []) :
    s.sending t = false := by
  by_contra hsending
  have hinactive := h.senders t ht (by simpa using hsending)
  have hlength := h.buffers
  rw [hpending, hinactive] at hlength
  exact absurd hlength h.positive.ne

/-- The message comes before a pending one. -/
def comesBefore (submitType priority : SubmitType) : Bool :=
  decide (submitType = urgentRequest ∨ submitType < priority)

/-- The state after a message is stored in a buffer, which becomes pending. -/
def stored (s : State ops B) (theMessage : B) (contentSource : List UInt8) (contentSize : Nat)
    (submitType : SubmitType) : State ops B :=
  { s with
    message := Function.update s.message theMessage
      { priority := submitType
        size := contentSize
        buffer := copyBuffer contentSource (s.message theMessage).buffer contentSize }
    numberOfPendingMessages := s.numberOfPendingMessages + 1
    pendingMessages := insertBefore (fun right => comesBefore submitType (s.message right).priority)
      theMessage s.pendingMessages }

omit [DecidableEq T] in
/-- The three ways to insert a message are one ordered insertion. -/
theorem insertMessage_eq (s : State ops B) {theMessage : B}
    (hnot : theMessage ∉ s.pendingMessages) (contentSource : List UInt8) (contentSize : Nat)
    (submitType : SubmitType) :
    insertMessage s theMessage contentSource contentSize submitType =
      stored s theMessage contentSource contentSize submitType := by
  simp only [insertMessage, stored, State.mk.injEq, true_and, and_true]
  by_cases hsend : submitType = sendRequest
  · subst hsend
    rw [if_pos rfl, insertBefore_eq_append]
    intro right _
    have hle : (s.message right).priority.toInt ≤ Int32.maxValue.toInt := Int32.toInt_le _
    have hnlt : ¬ sendRequest < (s.message right).priority := by
      rw [Int32.lt_iff_toInt_lt]
      exact not_lt.mpr hle
    have hne : sendRequest ≠ urgentRequest := by decide
    simp [comesBefore, hnlt, hne]
  · rw [if_neg hsend]
    by_cases hurgent : submitType = urgentRequest
    · rw [if_neg (not_not.mpr hurgent), insertBefore_eq_cons]
      simp [comesBefore, hurgent]
    · rw [if_pos hurgent]
      refine insertBefore_congr fun right hright => ?_
      have hne : right ≠ theMessage := fun heq => hnot (heq ▸ hright)
      simp [comesBefore, hurgent, hne]

/-- The fields of a receiver after it got a message. -/
def Wait.handed (w : Wait) (buffer : List UInt8) (size : Nat) (submitType : SubmitType) : Wait :=
  { w with
    size
    count := submitType.toUInt32
    buffer := copyBuffer buffer w.buffer size }

/-- The state after a receiver got a message and left the thread queue. -/
def handed (s : State ops B) (u : T) (buffer : List UInt8) (size : Nat)
    (submitType : SubmitType) : State ops B :=
  extractCritical
    { s with wait := Function.update s.wait u ((s.wait u).handed buffer size submitType) } u

omit [DecidableEq B] in
/-- Without pending messages the first waiting thread gets the message. -/
theorem dequeueReceiver_cases (h : Consistent s) (buffer : List UInt8) (size : Nat)
    (submitType : SubmitType) :
    (∃ u, ops.first s.state.waitQueue = some u ∧ s.state.pendingMessages = [] ∧
      dequeueReceiver s.state buffer size submitType =
        some (u, handed s.state u buffer size submitType)) ∨
    dequeueReceiver s.state buffer size submitType = none ∧
      ∀ t, ops.waits s.state.waitQueue t = true → s.sending t = true := by
  by_cases hpending : s.state.pendingMessages = []
  · have hnumber : s.state.numberOfPendingMessages = 0 := by rw [h.number, hpending]; rfl
    cases hfirst : ops.first s.state.waitQueue with
    | none =>
      right
      refine ⟨by simp [dequeueReceiver, hnumber, hfirst], fun t ht => ?_⟩
      rw [(ops.first_eq_none_iff _).mp hfirst t] at ht
      exact absurd ht (by decide)
    | some u =>
      left
      exact ⟨u, rfl, hpending, by simp [dequeueReceiver, hnumber, hfirst, handed, Wait.handed]⟩
  · right
    refine ⟨?_, fun t ht => h.sending_of_pending ht hpending⟩
    have hnumber : s.state.numberOfPendingMessages ≠ 0 := by
      rw [h.number]
      exact (List.length_pos_of_ne_nil hpending).ne'
    rw [dequeueReceiver, if_pos hnumber]

end Rtems.MessageQueue
