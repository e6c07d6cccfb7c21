import Rtems.Models.MessageQueue.Refinement

/-!
# The operations refine the steps of the book

Each operation keeps the chains consistent and has a step of the book that accepts,
delivers or withdraws the same messages and lets the same calls return.
-/

namespace Rtems.MessageQueue

variable {T B : Type} {ops : Operations T} {s : System ops B} {a : Book.State ops}
  {number : B → Nat}

theorem closed_withdrawn : (.withdrawn : Book.Fate T).IsClosed := ⟨by simp, by simp⟩

theorem closed_delivered (t : T) : (.delivered t : Book.Fate T).IsClosed := ⟨by simp, by simp⟩

theorem not_receives (h : Refines s a number)
    (hsenders : ∀ t, ops.waits s.state.waitQueue t = true → s.sending t = true) (u : T) :
    ¬ a.Receives u := by
  intro hu
  obtain ⟨hwaits, hsending⟩ := h.receives_iff.mp hu
  simp [hsenders u hwaits] at hsending

variable [DecidableEq T] [DecidableEq B]

/-- The operation is defined, keeps the chains consistent and has a step of the book. -/
def Simulated (s : System ops B) (a : Book.State ops) (op : Op ops) : Prop :=
  ∃ s' a' number', step s op = some s' ∧ Consistent s' ∧ Book.Step a op a' ∧ Refines s' a' number'

variable {t : T} {state : State ops B}

section

variable (hc : Consistent s) (h : Refines s a number) {m : Message} {wait isInIsr : Bool}
include hc h

theorem simulated_refused {status : Status}
    (hstep : submit s.state t m.contents m.contents.length m.priority wait isInIsr =
      (s.state, ⟨some status, none, false⟩))
    (hbook : Book.Step a (.submit t m wait isInIsr) (a.returns t status none)) :
    Simulated s a (.submit t m wait isInIsr) := by
  refine ⟨_, _, number, ?_, ?_, hbook, h.returns t status none (by simp)⟩
  · simp [step, hstep]
  · exact { hc with }

/-- A send to a waiting receiver. -/
theorem simulated_handOver {t u : T} (hsize : m.contents.length ≤ s.state.maximumMessageSize)
    (hfirst : ops.first s.state.waitQueue = some u) (hpending : s.state.pendingMessages = [])
    (hdequeue : dequeueReceiver s.state m.contents m.contents.length m.priority =
      some (u, handed s.state u m.contents m.contents.length m.priority)) :
    Simulated s a (.submit t m wait isInIsr) := by
  have hwaits : ops.waits s.state.waitQueue u = true := ops.waits_first _ _ hfirst
  have hsending : s.sending u = false := hc.receiving_of_nil hwaits hpending
  have hreceives : a.Receives u := h.receives_iff.mpr ⟨hwaits, hsending⟩
  obtain ⟨w, hw⟩ := @exists_eq _ ((s.state.wait u).handed m.contents m.contents.length m.priority)
  have hreceived : w.received = m := by
    simp [hw, Wait.received, Wait.handed, take_copyBuffer]
  have hreturnCode : w.returnCode = .successful := by
    rw [hw]
    exact h.returnCode u hwaits
  have hstored : Refines { s with
      state := { s.state with wait := Function.update s.state.wait u w } }
      (a.accept m (.delivered u)) number := by
    refine (h.accept m (closed_delivered u)).frame rfl rfl rfl rfl rfl (fun _ _ => rfl) ?_ ?_ rfl
    · intro v _ hv
      have hvu : v ≠ u := by
        rintro rfl
        simp [hsending] at hv
      simp [hvu]
    · intro v _
      by_cases hvu : v = u
      · subst hvu
        simp [hw, Wait.handed]
      · simp [hvu]
  have hleft := hstored.leave (hstored.receives_iff.mpr ⟨hwaits, hsending⟩)
  have hreturned := (hleft.returns u .successful (some a.count)
    (by simp [Book.State.extract, Book.State.accept])).returns t .successful none (by simp)
  refine ⟨_, _, number, ?_, ?_, .handOver (h.size ▸ hsize) (h.waitQueue ▸ hfirst) hreceives,
    hreturned⟩
  · simp [step, submit, hsize.not_gt, hdequeue, handed, wokenReceiver, extractCritical, ← hw,
      hreceived, hreturnCode, Book.State.extract]
  · refine { hc with receivers := fun _ _ _ => hpending, senders := ?_ }
    intro v hv
    exact hc.senders v ((ops.waits_extract _ _ _).mp hv).2

/-- A send into an inactive buffer. -/
theorem simulated_keep (hsize : m.contents.length ≤ s.state.maximumMessageSize)
    (hdequeue : dequeueReceiver s.state m.contents m.contents.length m.priority = none)
    (hsenders : ∀ t, ops.waits s.state.waitQueue t = true → s.sending t = true)
    {b : B} {rest : List B} (hinactive : s.state.inactiveMessages = b :: rest) :
    Simulated s a (.submit t m wait isInIsr) := by
  have hnodup := hc.nodup
  have hbuffers := hc.buffers
  rw [hinactive] at hnodup hbuffers
  have hb : b ∉ s.state.pendingMessages := by
    intro hmem
    exact (List.disjoint_of_nodup_append hnodup) hmem List.mem_cons_self
  have hroom : a.pending.ncard < a.capacity := by
    rw [h.ncard_pending, h.capacity, ← hbuffers, List.length_cons]
    omega
  have hframe : Refines { s with state := { s.state with inactiveMessages := rest } }
      (a.accept m .withdrawn) number :=
    (h.accept m closed_withdrawn).frame rfl rfl rfl rfl rfl (fun _ _ => rfl) (fun _ _ _ => rfl)
      (fun _ _ => rfl) rfl
  have hstored := hframe.store m.contents m.contents.length m.priority hb
    (a.accept_fate_self m .withdrawn) closed_withdrawn le_rfl (by simp)
  rw [a.accept_assign] at hstored
  refine ⟨_, _, _, ?_, ?_, .keep (h.size ▸ hsize) (not_receives h hsenders) hroom,
    hstored.returns t .successful none (by simp)⟩
  · simp [step, submit, hsize.not_gt, hdequeue, hinactive,
      insertMessage_eq { s.state with inactiveMessages := rest } hb]
  · have hperm := (insertBefore_perm
      (fun right => comesBefore m.priority (s.state.message right).priority) b
      s.state.pendingMessages).append_right rest
    refine ⟨hc.positive, (hperm.trans List.perm_middle.symm).nodup_iff.mpr hnodup, ?_, ?_, ?_, ?_⟩
    · refine Eq.trans ?_ hbuffers
      simp [stored, Nat.add_assoc, Nat.add_comm 1]
    · simp [stored, hc.number]
    · intro v hv hsending
      simp [hsenders v hv] at hsending
    · intro v hv hsending
      simp [hc.senders v hv hsending] at hinactive

end

variable {m : Message}

/-- A send that waits leaves its message in the storage of the thread. -/
theorem step_submit_of_nil (hsize : m.contents.length ≤ s.state.maximumMessageSize)
    (hdequeue : dequeueReceiver s.state m.contents m.contents.length m.priority = none)
    (hinactive : s.state.inactiveMessages = []) :
    step s (.submit t m true false) = some
      { s with
        state := { s.state with
          waitQueue := ops.enqueue s.state.waitQueue t
          wait := Function.update s.state.wait t
            { s.state.wait t with
              returnCode := .successful
              buffer := m.contents
              option := UInt32.ofNat m.contents.length
              count := m.priority.toUInt32 } }
        sending := Function.update s.sending t true } := by
  simp [step, submit, hsize.not_gt, hdequeue, hinactive, enqueue]

/-- A send that waits. -/
theorem simulated_waitToSend (hc : Consistent s) (h : Refines s a number)
    (ht : ops.waits s.state.waitQueue t = false)
    (hsize : m.contents.length ≤ s.state.maximumMessageSize)
    (hfits : m.contents.length < 2 ^ 32)
    (hdequeue : dequeueReceiver s.state m.contents m.contents.length m.priority = none)
    (hsenders : ∀ t, ops.waits s.state.waitQueue t = true → s.sending t = true)
    (hinactive : s.state.inactiveMessages = []) :
    Simulated s a (.submit t m true false) := by
  have hfull : a.pending.ncard = a.capacity := by
    have hbuffers := hc.buffers
    rw [hinactive] at hbuffers
    rw [h.ncard_pending, h.capacity, ← hbuffers]
    rfl
  have hoption : (UInt32.ofNat m.contents.length).toNat = m.contents.length := by
    simpa using hfits
  obtain ⟨w, hw⟩ : ∃ w, w = { s.state.wait t with
      returnCode := .successful
      buffer := m.contents
      option := UInt32.ofNat m.contents.length
      count := m.priority.toUInt32 } := ⟨_, rfl⟩
  have hsent : w.sent = m := by
    rw [hw, Wait.sent]
    simp only [hoption, List.take_length]
    rfl
  have hwait := (h.accept m closed_withdrawn).waitToSend (w := w) ht
    (a.accept_fate_self m .withdrawn) closed_withdrawn (by simpa using hsent)
    (by rw [hw]; simp [hoption]) (by rw [hw])
  rw [a.accept_assign] at hwait
  refine ⟨_, _, _, ?_, ?_, .waitToSend (h.size ▸ hsize) (not_receives h hsenders) hfull, hwait⟩
  · rw [step_submit_of_nil hsize hdequeue hinactive, hw]
  · refine { hc with receivers := ?_, senders := fun _ _ _ => hinactive }
    intro v hv hsending
    by_cases hvt : v = t
    · simp [hvt] at hsending
    · have hv := ((ops.waits_enqueue _ _ _).mp hv).resolve_left hvt
      simp [hvt, hsenders v hv] at hsending

/-- Every send is simulated. -/
theorem simulated_submit (hc : Consistent s) (h : Refines s a number)
    {wait isInIsr : Bool} (hsafe : Safe s (.submit t m wait isInIsr)) :
    Simulated s a (.submit t m wait isInIsr) := by
  obtain ⟨hlegal, hfits⟩ := hsafe
  by_cases hsize : s.state.maximumMessageSize < m.contents.length
  · exact simulated_refused hc h (by simp [submit, hsize]) (.tooLarge (h.size ▸ hsize))
  have hsize : m.contents.length ≤ s.state.maximumMessageSize := not_lt.mp hsize
  rcases dequeueReceiver_cases hc m.contents m.contents.length m.priority with
    ⟨u, hfirst, hpending, hdequeue⟩ | ⟨hdequeue, hsenders⟩
  · exact simulated_handOver hc h hsize hfirst hpending hdequeue
  cases hinactive : s.state.inactiveMessages with
  | cons b rest => exact simulated_keep hc h hsize hdequeue hsenders hinactive
  | nil =>
    have hfull : a.pending.ncard = a.capacity := by
      have hbuffers := hc.buffers
      rw [hinactive] at hbuffers
      rw [h.ncard_pending, h.capacity, ← hbuffers]
      rfl
    have hreceives := not_receives h hsenders
    cases wait with
    | false =>
      exact simulated_refused hc h (by simp [submit, hsize.not_gt, hdequeue, hinactive])
        (.full (h.size ▸ hsize) hreceives hfull)
    | true =>
      cases isInIsr with
      | true =>
        exact simulated_refused hc h (by simp [submit, hsize.not_gt, hdequeue, hinactive])
          (.fullInIsr (h.size ▸ hsize) hreceives hfull)
      | false =>
        exact simulated_waitToSend hc h (hlegal.resolve_left (by simp)) hsize
          (hfits hinactive rfl rfl) hdequeue hsenders hinactive

/-- The fields of a thread that receives from a buffer. -/
def Wait.taken (w : Wait) (message : Buffer) (buffer : List UInt8) : Wait :=
  { w with
    size := message.size
    count := message.priority.toUInt32
    buffer := copyBuffer message.buffer buffer message.size }

/-- The state after the first pending message was copied to a thread. -/
def taken (s : State ops B) (t : T) (b : B) (rest : List B) (buffer : List UInt8) : State ops B :=
  { s with
    pendingMessages := rest
    numberOfPendingMessages := s.numberOfPendingMessages - 1
    wait := Function.update s.wait t ((s.wait t).taken (s.message b) buffer) }

section

variable {b : B} {rest : List B}

omit [DecidableEq B] in
theorem Refines.take (h : Refines s a number) (ht : ops.waits s.state.waitQueue t = false)
    (hpending : s.state.pendingMessages = b :: rest) (buffer : List UInt8) :
    Refines { s with state := taken s.state t b rest buffer }
      (a.assign (number b) (.delivered t)) number := by
  have hne {u : T} (hu : ops.waits s.state.waitQueue u = true) : u ≠ t := by
    rintro rfl
    simp [ht] at hu
  refine (h.unpend hpending (closed_delivered t)).frame rfl rfl rfl rfl rfl (fun _ _ => rfl) ?_ ?_
    rfl
  · intro u hu _
    simp [taken, hne hu]
  · intro u hu
    simp [taken, hne hu]

theorem seize_eq_of_some {t u : T}
    (hpending : state.pendingMessages = b :: rest) (hb : b ∉ rest) (hu : u ≠ t)
    (hfirst : ops.first state.waitQueue = some u) (buffer : List UInt8) (wait : Bool) :
    seize state t buffer wait =
      (stored (extractCritical (taken state t b rest buffer) u) b (state.wait u).buffer
        (state.wait u).option.toNat (state.wait u).count.toInt32,
        ⟨some .successful, some u, false⟩) := by
  have hstored := insertMessage_eq (taken state t b rest buffer) hb (state.wait u).buffer
    (state.wait u).option.toNat (state.wait u).count.toInt32
  simp only [taken, Wait.taken] at hstored
  simp only [seize, hpending, hfirst, Function.update_of_ne hu, hstored]
  rfl

omit [DecidableEq B] in
/-- The receiver of the first pending message finds that message. -/
theorem Refines.received_take (h : Refines s a number)
    (hpending : s.state.pendingMessages = b :: rest) (t : T) (buffer : List UInt8) :
    ((taken s.state t b rest buffer).wait t).received = a.message (number b) := by
  have hb : b ∈ s.state.pendingMessages := by simp [hpending]
  rw [← h.contents b hb]
  simp [taken, Wait.taken, Wait.received, Buffer.contents, take_copyBuffer _ _ (h.filled b hb)]

omit [DecidableEq T] [DecidableEq B] in
theorem Refines.head_lt (h : Refines s a number)
    (hpending : s.state.pendingMessages = b :: rest) : number b < a.count :=
  h.pending_lt ((h.pending _).mpr (by simp [hpending]))

end

variable {buffer : List UInt8} {wait : Bool}

omit [DecidableEq T] [DecidableEq B] in
/-- A flush makes every buffer inactive. -/
theorem flush_eq (hc : Consistent s) :
    (MessageQueue.flush s.state).1 = { s.state with
      numberOfPendingMessages := 0
      inactiveMessages := s.state.pendingMessages ++ s.state.inactiveMessages
      pendingMessages := [] } := by
  rw [MessageQueue.flush]
  split
  · rfl
  · next hzero =>
    have hnil : s.state.pendingMessages = [] := by
      rw [hc.number, not_not] at hzero
      exact List.length_eq_zero_iff.mp hzero
    ext1 <;> simp [hnil, not_not.mp hzero]

section

variable (hc : Consistent s) (h : Refines s a number)
include hc h

/-- A receive while no sender waits. -/
theorem simulated_deliver (ht : ops.waits s.state.waitQueue t = false)
    {b : B} {rest : List B} (hpending : s.state.pendingMessages = b :: rest)
    (hfirst : ops.first s.state.waitQueue = none) :
    Simulated s a (.seize t buffer wait) := by
  have htaken : Refines
      { s with
        state := { taken s.state t b rest buffer with
          inactiveMessages := s.state.inactiveMessages ++ [b] } }
      (a.assign (number b) (.delivered t)) number :=
    (h.take ht hpending buffer).frame rfl rfl rfl rfl rfl (fun _ _ => rfl) (fun _ _ _ => rfl)
      (fun _ _ => rfl) rfl
  have hreturned := htaken.returns t .successful (some (number b))
    (by rintro n ⟨⟩; exact h.head_lt hpending)
  refine ⟨_, _, _, ?_, ?_, .deliver (h.next hpending) (h.waitQueue ▸ hfirst), hreturned⟩
  · simp [step, seize, hpending, hfirst, ← h.received_take hpending t buffer, taken, Wait.taken]
  · have hnone := (ops.first_eq_none_iff _).mp hfirst
    have hnodup := hc.nodup
    have hbuffers := hc.buffers
    have hnumber := hc.number
    rw [hpending] at hnodup hbuffers hnumber
    refine ⟨hc.positive, ?_, ?_, ?_, ?_, ?_⟩
    · have hperm : (rest ++ (s.state.inactiveMessages ++ [b])).Perm
          (b :: rest ++ s.state.inactiveMessages) := by
        rw [← List.append_assoc]
        exact List.perm_append_singleton _ _
      exact hperm.nodup_iff.mpr hnodup
    · refine Eq.trans ?_ hbuffers
      simp [taken]
      omega
    · simp [taken, hnumber]
    · intro v hv
      exact absurd hv (by simpa [taken] using hnone v)
    · intro v hv
      exact absurd hv (by simpa [taken] using hnone v)

/-- A receive while senders wait. -/
theorem simulated_refill {t u : T}
    (ht : ops.waits s.state.waitQueue t = false)
    {b : B} {rest : List B} (hpending : s.state.pendingMessages = b :: rest)
    (hfirst : ops.first s.state.waitQueue = some u) :
    Simulated s a (.seize t buffer wait) := by
  have hwaits : ops.waits s.state.waitQueue u = true := ops.waits_first _ _ hfirst
  have hsending : s.sending u = true := hc.sending_of_pending hwaits (by simp [hpending])
  have hut : u ≠ t := by
    rintro rfl
    simp [ht] at hwaits
  have hnodup := hc.nodup
  have hbuffers := hc.buffers
  have hnumber := hc.number
  rw [hpending] at hnodup hbuffers hnumber
  have hb : b ∉ rest := fun hmem =>
    (List.nodup_cons.mp hnodup).1 (List.mem_append_left _ hmem)
  obtain ⟨k, hk⟩ := h.sender u hwaits hsending
  obtain ⟨-, -, hsent, -⟩ := h.waiting k u hk
  obtain ⟨turn, hturn⟩ := (h.next hpending).1
  have hne : k ≠ number b := by
    rintro rfl
    simp [hk] at hturn
  have hk' : (a.assign (number b) (.delivered t)).fate k = some (.waiting u) :=
    (a.assign_fate_of_ne _ hne).trans hk
  have hstored := ((h.take ht hpending buffer).withdraw hk' closed_withdrawn).store
    (s.state.wait u).buffer (s.state.wait u).option.toNat (s.state.wait u).count.toInt32 (b := b)
    hb (Book.State.assign_fate_self _ k .withdrawn) closed_withdrawn (h.given u hwaits hsending)
    hsent.symm
  rw [Book.State.assign_extract_assign] at hstored
  have hreturned := (hstored.returns u .successful none (by simp)).returns t .successful
    (some (number b)) (by rintro n ⟨⟩; exact h.head_lt hpending)
  refine ⟨_, _, _, ?_, ?_, .deliverAndRefill (h.next hpending) (h.waitQueue ▸ hfirst) hk,
    hreturned⟩
  · have hreceived := h.received_take hpending t buffer
    have hreturnCode := h.returnCode u hwaits
    simp [step, seize_eq_of_some hpending hb hut hfirst, wokenSender, stored, extractCritical,
      taken, hut, hreturnCode] at hreceived ⊢
    exact hreceived
  · have hperm := (insertBefore_perm (fun right =>
      comesBefore (s.state.wait u).count.toInt32 (s.state.message right).priority) b
      rest).append_right s.state.inactiveMessages
    refine ⟨hc.positive, hperm.nodup_iff.mpr hnodup, ?_, ?_, ?_, ?_⟩
    · refine Eq.trans ?_ hbuffers
      simp [stored, extractCritical, taken]
    · simp [stored, extractCritical, taken, hnumber]
    · intro v hv hsending
      simp [hc.receivers v ((ops.waits_extract _ _ _).mp hv).2 hsending] at hpending
    · intro v hv hsending
      exact hc.senders v ((ops.waits_extract _ _ _).mp hv).2 hsending

/-- Every receive is simulated. -/
theorem simulated_seize (ht : ops.waits s.state.waitQueue t = false) :
    Simulated s a (.seize t buffer wait) := by
  cases hpending : s.state.pendingMessages with
  | cons b rest =>
    cases hfirst : ops.first s.state.waitQueue with
    | none => exact simulated_deliver hc h ht hpending hfirst
    | some u => exact simulated_refill hc h ht hpending hfirst
  | nil =>
    have hempty : a.pending = ∅ := by
      ext n
      simp [h.pending, hpending]
    cases wait with
    | false =>
      refine ⟨_, _, number, ?_, ?_, .nothing hempty, h.returns t .unsatisfied none (by simp)⟩
      · simp [step, seize, hpending]
      · exact { hc with }
    | true =>
      have hwait := h.waitToReceive ht
        (w := { s.state.wait t with returnCode := .successful, buffer := buffer }) rfl
      refine ⟨_, _, number, ?_, ?_, .waitToReceive hempty, hwait⟩
      · simp [step, seize, hpending, enqueue]
      · refine { hc with receivers := fun _ _ _ => hpending, senders := ?_ }
        intro v hv hsending
        by_cases hvt : v = t
        · simp [hvt] at hsending
        · exact hc.senders v (((ops.waits_enqueue _ _ _).mp hv).resolve_left hvt)
            (by simpa [hvt] using hsending)

/-- Every timeout is simulated. -/
theorem simulated_timeout
    (ht : ops.waits s.state.waitQueue t = true) : Simulated s a (.timeout t) := by
  have hconsistent : Consistent { s with
      state := MessageQueue.timeout s.state t
      history := ⟨t, .timeout, none⟩ :: s.history } := by
    refine { hc with receivers := ?_, senders := ?_ }
    · intro v hv
      exact hc.receivers v ((ops.waits_extract _ _ _).mp hv).2
    · intro v hv
      exact hc.senders v ((ops.waits_extract _ _ _).mp hv).2
  have hstep : step s (.timeout t) = some { s with
      state := MessageQueue.timeout s.state t
      history := ⟨t, .timeout, none⟩ :: s.history } := by
    simp [step, MessageQueue.timeout, extractCritical]
  have hframe {a' : Book.State ops}
      (h' : Refines { s with state := extractCritical s.state t } a' number) :
      Refines { s with state := MessageQueue.timeout s.state t } a' number := by
    refine h'.frame rfl rfl rfl rfl rfl (fun _ _ => rfl) ?_ ?_ rfl
    · intro v hv _
      have hvt := ((ops.waits_extract _ _ _).mp hv).1
      simp [MessageQueue.timeout, extractCritical, hvt]
    · intro v hv
      have hvt := ((ops.waits_extract _ _ _).mp hv).1
      simp [MessageQueue.timeout, extractCritical, hvt]
  cases hsending : s.sending t with
  | true =>
    obtain ⟨n, hn⟩ := h.sender t ht hsending
    exact ⟨_, _, number, hstep, hconsistent, .giveUpSend hn,
      (hframe (h.withdraw hn closed_withdrawn)).returns t .timeout none (by simp)⟩
  | false =>
    have hreceives := h.receives_iff.mpr ⟨ht, hsending⟩
    exact ⟨_, _, number, hstep, hconsistent, .giveUpReceive hreceives,
      (hframe (h.leave hreceives)).returns t .timeout none (by simp)⟩

/-- What a flush makes of a fate. -/
def afterFlush : Option (Book.Fate T) → Option (Book.Fate T)
  | some (.pending _) => some .flushed
  | fate => fate

/-- Every flush is simulated. -/
theorem simulated_flush
    (hsenders : ∀ t, ops.waits s.state.waitQueue t = true → s.sending t = false) :
    Simulated s a .flush := by
  have hnot (t : T) : ¬ a.Sends t := by
    rintro ⟨n, hn⟩
    obtain ⟨hwaits, hsending, -⟩ := h.waiting n t hn
    simp [hsenders t hwaits] at hsending
  obtain ⟨a', ha'⟩ : ∃ a' : Book.State ops, a' = { a with
      fate := fun n => afterFlush (a.fate n) } := ⟨_, rfl⟩
  refine ⟨_, a', number, rfl, ?_, .flush hnot ha', ?_⟩
  · rw [flush_eq hc]
    refine ⟨hc.positive, by simpa using hc.nodup, by simpa using hc.buffers, rfl,
      fun _ _ _ => rfl, ?_⟩
    intro t hwaits hsending
    simp [hsenders t hwaits] at hsending
  · have hpending (n turn : Nat) : a'.fate n ≠ some (.pending turn) := by
      intro hn
      simp only [ha', afterFlush] at hn
      split at hn <;> simp_all
    have hwaiting (n : Nat) (t : T) : a'.fate n ≠ some (.waiting t) := by
      intro hn
      simp only [ha', afterFlush] at hn
      split at hn
      · simp at hn
      · exact hnot t ⟨n, hn⟩
    have hfresh (n : Nat) (hn : a.count ≤ n) : a'.fate n = none := by
      simp only [ha', h.fresh n hn, afterFlush]
    rw [flush_eq hc]
    have hempty : ∀ n, n ∉ a'.pending := fun n ⟨turn, hn⟩ => hpending n turn hn
    subst ha'
    refine { h with
      fresh := hfresh
      turn_lt := fun n turn hn => absurd hn (hpending n turn)
      pending := fun n => by simpa using hempty n
      ordered := List.Pairwise.nil
      contents := by simp
      filled := by simp
      sender := fun t hwaits hsending => absurd hsending (by simp [hsenders t hwaits])
      waiting := fun n t hn => absurd hn (hwaiting n t) }

/-- Every safe operation is simulated. -/
theorem Simulated.step {op : Op ops}
    (hsafe : Safe s op) : Simulated s a op := by
  cases op with
  | submit t m wait isInIsr => exact simulated_submit hc h hsafe
  | seize t buffer wait => exact simulated_seize hc h hsafe.1
  | timeout t => exact simulated_timeout hc h hsafe.1
  | flush => exact simulated_flush hc h hsafe.1
  | reorder waitQueue =>
    have hlegal : ∀ t, ops.waits waitQueue t = ops.waits s.state.waitQueue t := hsafe.1
    refine ⟨_, _, number, rfl, ?_, .reorder (by simpa [h.waitQueue] using hlegal), ?_⟩
    · refine { hc with receivers := ?_, senders := ?_ }
      · simpa only [hlegal] using hc.receivers
      · simpa only [hlegal] using hc.senders
    · refine { h with waitQueue := rfl, sender := ?_, given := ?_, waiting := ?_, returnCode := ?_ }
      · intro t hwaits hsending
        exact h.sender t ((hlegal t).symm.trans hwaits) hsending
      · simpa only [hlegal] using h.given
      · simpa only [hlegal] using h.waiting
      · simpa only [hlegal] using h.returnCode
  | setNotify handler => exact ⟨_, _, number, rfl, { hc with }, .setNotify, { h with }⟩

end

end Rtems.MessageQueue
